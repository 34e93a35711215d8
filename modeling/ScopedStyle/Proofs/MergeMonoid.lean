import ScopedStyle.Proofs.DistinctKeys
import ScopedStyle.Proofs.OverrideChains

/-! Merging as a partial monoid. Mappings with texts for keys can be merged in turn exactly where the
later two can be merged with each other and then onto the first, and both ways give the same mapping;
the empty mapping is neutral, and a mapping merged onto itself stays what it is. -/
namespace ScopedStyle

variable {κ : Type}

/-- A spec with a plain mapping for every scope in it. -/
def Spec.plain : Spec κ → Spec κ
  | .nil => .nil
  | .leaf key value rest => .leaf key value rest.plain
  | .scope key _ inner rest => .scope key none inner.plain rest.plain

theorem Spec.plain_mapKeys {μ : Type} (name : κ → μ) (spec : Spec κ) :
    (spec.mapKeys name).plain = spec.plain.mapKeys name := by
  induction spec with
  | nil => rfl
  | leaf key value rest ih => simp [mapKeys, plain, ih]
  | scope key traits inner rest ihInner ih => simp [mapKeys, plain, ihInner, ih]

variable [BEq κ]

/-- Whether what two specs have under one key can be merged. -/
def Entry.Compatible : Option (Entry κ) → Option (Entry κ) → Prop
  | some (.leaf _), some (.scope _) => False
  | some (.scope _), some (.leaf _) => False
  | some (.scope inner), some (.scope changes) => inner.firstConflict? changes = none
  | _, _ => True

theorem Entry.compatible_none (base : Option (Entry κ)) : Compatible base none := by
  cases base with
  | none => trivial
  | some entry => cases entry <;> trivial

namespace Spec

private theorem no_conflict_of_overlaid {base first second : Spec κ}
    (free : base.firstConflict? (first.overlaid second) = none) :
    base.firstConflict? first = none := by
  induction first generalizing base second with
  | nil => rfl
  | leaf key value rest ih =>
    simp only [overlaid] at free
    split at free
    all_goals
      obtain ⟨noScope, further⟩ := no_conflict_leaf.mp free
      exact no_conflict_leaf.mpr ⟨noScope, ih further⟩
  | scope key traits inner rest ihInner ih =>
    simp only [overlaid] at free
    split at free
    · obtain ⟨noLeaf, below, further⟩ := no_conflict_scope.mp free
      refine no_conflict_scope.mpr ⟨noLeaf, ?_, ih further⟩
      intro found held
      have inside := below found held
      rw [firstConflict?_append, Option.or_eq_none_iff] at inside
      exact ihInner inside.1
    · obtain ⟨noLeaf, below, further⟩ := no_conflict_scope.mp free
      exact no_conflict_scope.mpr ⟨noLeaf, below, ih further⟩

/-- What is free of conflict with a merge of patches is so with the first of them. -/
theorem no_conflict_with_first {base first second : Spec κ}
    (free : base.firstConflict? (first.patched second) = none) :
    base.firstConflict? first = none := by
  rw [patched, firstConflict?_append, Option.or_eq_none_iff] at free
  exact no_conflict_of_overlaid free.1

section Lookup

variable [EquivBEq κ]

/-! ## Conflicts key by key -/

theorem compatible_of_no_conflict {base patch : Spec κ} (free : base.firstConflict? patch = none)
    (key : κ) : Entry.Compatible (base.find? key) (patch.find? key) := by
  obtain absent | absent | ⟨old, new, inBase, inPatch⟩ | ⟨inner, changes, inBase, inPatch, below⟩ :=
    entries_without_conflict free key
  · rw [absent]
    trivial
  · rw [absent]
    exact Entry.compatible_none _
  · rw [inBase, inPatch]
    trivial
  · rw [inBase, inPatch]
    exact below

/-- What is behind an entry with a key of its own is compatible where the whole is. -/
private theorem compatible_rest {base patch rest : Spec κ} {first : κ}
    (compatible : ∀ key, Entry.Compatible (base.find? key) (patch.find? key))
    (once : rest.find? first = none)
    (passes : ∀ key, ¬ (first == key) = true → patch.find? key = rest.find? key) (key : κ) :
    Entry.Compatible (base.find? key) (rest.find? key) := by
  cases behind : rest.find? key with
  | none => exact Entry.compatible_none _
  | some entry =>
    rw [← behind, ← passes key (not_met_of_find?_rest once behind)]
    exact compatible key

/-- Whether there is a conflict is told key by key, as long as the patch has every key once. -/
theorem no_conflict_iff_compatible {base patch : Spec κ} (distinct : patch.hasDistinctKeys = true) :
    base.firstConflict? patch = none ↔
      ∀ key, Entry.Compatible (base.find? key) (patch.find? key) := by
  refine ⟨compatible_of_no_conflict, ?_⟩
  intro compatible
  induction patch with
  | nil => rfl
  | leaf first value rest ih =>
    obtain ⟨once, others⟩ := hasDistinctKeys_leaf.mp distinct
    have here := compatible first
    simp only [find?, BEq.rfl, ↓reduceIte] at here
    have further := compatible_rest compatible once fun key other => by simp [find?, other]
    refine no_conflict_leaf.mpr ⟨?_, ih others further⟩
    intro inner held
    rw [held] at here
    exact here
  | scope first traits changes rest _ ih =>
    obtain ⟨once, _, others⟩ := hasDistinctKeys_scope.mp distinct
    have here := compatible first
    simp only [find?, BEq.rfl, ↓reduceIte] at here
    have further := compatible_rest compatible once fun key other => by simp [find?, other]
    refine no_conflict_scope.mpr ⟨?_, ?_, ih others further⟩
    · intro value held
      rw [held] at here
      exact here
    · intro inner held
      rw [held] at here
      exact here

/-! ## Merging in turn -/

/-- If patches can be merged with each other, and their merge onto a base, then the second can be
merged onto what the first has made of the base. -/
theorem no_conflict_in_turn {base first second : Spec κ} (distinct : second.hasDistinctKeys = true)
    (between : first.firstConflict? second = none)
    (free : base.firstConflict? (first.patched second) = none) :
    (base.patched first).firstConflict? second = none := by
  induction second using scopeInduction generalizing base first with
  | step second ih =>
    apply (no_conflict_iff_compatible distinct).mpr
    intro key
    have apart := compatible_of_no_conflict between key
    have whole := compatible_of_no_conflict free key
    rw [find?_patched] at whole ⊢
    cases inSecond : second.find? key with
    | none => exact Entry.compatible_none _
    | some entry =>
      rw [inSecond] at apart whole
      cases entry with
      | leaf value =>
        rcases inFirst : first.find? key with _ | _ | more <;>
          rcases inBase : base.find? key with _ | _ | inner <;>
          simp_all [Entry.Compatible, Entry.overlaid]
      | scope changes =>
        have inside := hasDistinctKeys_of_find? distinct inSecond
        -- Only where all three have a scope is there a merge to look into.
        rcases inFirst : first.find? key with _ | _ | more <;>
          rcases inBase : base.find? key with _ | _ | inner <;>
          simp_all [Entry.Compatible, Entry.overlaid]
        exact ih key changes inSecond inside apart whole

/-- Merging two patches in turn comes to what merging the merge of the two comes to, and the one
succeeds where the other does. -/
theorem merge_assoc {base first second result : Spec κ} (distinct : second.hasDistinctKeys = true) :
    (∃ middle, base.merge first = .ok middle ∧ middle.merge second = .ok result) ↔
      ∃ patch, first.merge second = .ok patch ∧ base.merge patch = .ok result := by
  constructor
  · rintro ⟨middle, step, next⟩
    exact merge_patches_first step next
  · rintro ⟨patch, together, atOnce⟩
    obtain ⟨between, rfl⟩ := merge_eq_ok.mp together
    obtain ⟨free, rfl⟩ := merge_eq_ok.mp atOnce
    refine ⟨base.patched first, merge_eq_ok.mpr ⟨no_conflict_with_first free, rfl⟩, ?_⟩
    exact merge_eq_ok.mpr ⟨no_conflict_in_turn distinct between free, patched_assoc between base⟩

/-! ## Merging with itself -/

theorem no_conflict_with_itself {spec : Spec κ} (distinct : spec.hasDistinctKeys = true) :
    spec.firstConflict? spec = none := by
  induction spec using scopeInduction with
  | step spec ih =>
    apply (no_conflict_iff_compatible distinct).mpr
    intro key
    cases held : spec.find? key with
    | none => trivial
    | some entry =>
      cases entry with
      | leaf value => trivial
      | scope inner => exact ih key inner held (hasDistinctKeys_of_find? distinct held)

omit [EquivBEq κ] in
/-- Nothing lies beyond a base that has all the keys. -/
theorem beyond_of_held [ReflBEq κ] {base patch : Spec κ}
    (held : ∀ key, (patch.find? key).isSome → (base.find? key).isSome) :
    base.beyond patch = .nil := by
  induction patch with
  | nil => rfl
  | leaf first value rest ih =>
    have here := held first (by simp [find?])
    simp only [beyond, here, ↓reduceIte]
    apply ih
    intro key behind
    apply held
    by_cases met : (first == key) = true <;> simp [find?, met, behind]
  | scope first traits inner rest _ ih =>
    have here := held first (by simp [find?])
    simp only [beyond, here, ↓reduceIte]
    apply ih
    intro key behind
    apply held
    by_cases met : (first == key) = true <;> simp [find?, met, behind]

/-- A patch that has all that the base has leaves it as it is, but for what holds its scopes. -/
private theorem overlaid_of_agreeing {base patch : Spec κ} (distinct : base.hasDistinctKeys = true)
    (agree : ∀ key entry, base.find? key = some entry → patch.find? key = some entry) :
    base.overlaid patch = base.plain := by
  -- The scopes of the base are looked at with themselves for a patch, its rest with the same one.
  induction base generalizing patch with
  | nil => rfl
  | leaf first value rest ih =>
    obtain ⟨once, others⟩ := hasDistinctKeys_leaf.mp distinct
    have here := agree first (.leaf value) (by simp [find?])
    have further : rest.overlaid patch = rest.plain := by
      apply ih others
      intro key entry behind
      apply agree
      simp [find?, not_met_of_find?_rest once behind, behind]
    simp only [overlaid, here, further, plain]
  | scope first traits inner rest ihInner ih =>
    obtain ⟨once, inside, others⟩ := hasDistinctKeys_scope.mp distinct
    have here := agree first (.scope inner) (by simp [find?])
    have further : rest.overlaid patch = rest.plain := by
      apply ih others
      intro key entry behind
      apply agree
      simp [find?, not_met_of_find?_rest once behind, behind]
    have below : inner.overlaid inner = inner.plain := ihInner inside fun _ _ held => held
    have nothing : inner.beyond inner = .nil := beyond_of_held fun _ held => held
    simp only [overlaid, here, further, below, nothing, append_nil, plain]

/-- A spec merged onto itself stays what it is. -/
theorem merge_itself {spec : Spec κ} (distinct : spec.hasDistinctKeys = true) :
    spec.merge spec = .ok spec.plain := by
  refine merge_eq_ok.mpr ⟨no_conflict_with_itself distinct, ?_⟩
  rw [patched, overlaid_of_agreeing distinct fun _ _ held => held,
    beyond_of_held fun _ held => held, append_nil]

end Lookup

end Spec

/-! ## Mappings with texts for keys -/

/-- A value that is a mapping in which every key is a text, and none stands twice in a scope. -/
structure Value.IsTextMap (value : Value) : Prop where
  keyed : value.TextKeyed
  distinct : value.hasDistinctKeys = true

namespace Value

/-- Whether a value is, as a mapping, a certain spec. -/
def Reads (value : Value) (spec : Spec Key) : Prop :=
  value.spec? = some (spec.mapKeys Key.toValue)

theorem isTextMap_iff {value : Value} :
    value.IsTextMap ↔ ∃ spec, value.Reads spec ∧ spec.hasDistinctKeys = true := by
  constructor
  · rintro ⟨⟨_, read, spec, rfl⟩, distinct⟩
    simp only [hasDistinctKeys, read] at distinct
    rw [Spec.hasDistinctKeys_mapKeys Key.toValue_beq_toValue] at distinct
    exact ⟨spec, read, distinct⟩
  · rintro ⟨spec, read, distinct⟩
    have reads : value.spec? = some (spec.mapKeys Key.toValue) := read
    refine ⟨⟨_, read, spec, rfl⟩, ?_⟩
    simp only [hasDistinctKeys, reads]
    rw [Spec.hasDistinctKeys_mapKeys Key.toValue_beq_toValue]
    exact distinct

/-- Mappings are merged as the specs that they are. -/
theorem merged_iff_merge {base patch result : Value} {spec changes : Spec Key}
    (baseReads : base.Reads spec) (patchReads : patch.Reads changes) :
    base.merged patch = .ok result ↔
      ∃ merged, spec.merge changes = .ok merged ∧
        .map ((merged.mapKeys Key.toValue).toEntries id) = result := by
  have faithful := Key.toValue_beq_toValue
  constructor
  · intro ran
    obtain ⟨_, _, _, baseRead, patchRead, step, rfl⟩ := merged_eq_ok.mp ran
    cases baseReads.symm.trans baseRead
    cases patchReads.symm.trans patchRead
    obtain ⟨free, rfl⟩ := Spec.merge_eq_ok.mp step
    rw [Spec.firstConflict?_mapKeys faithful, Option.map_eq_none_iff] at free
    exact ⟨_, Spec.merge_eq_ok.mpr ⟨free, rfl⟩, by rw [Spec.mapKeys_patched faithful]⟩
  · rintro ⟨merged, step, rfl⟩
    have stepped := Spec.merge_mapKeys_of_ok faithful step
    exact merged_eq_ok.mpr ⟨_, _, _, baseReads, patchReads, stepped, rfl⟩

theorem reads_of_merge {base patch : Value} {spec changes merged : Spec Key}
    (baseReads : base.Reads spec) (patchReads : patch.Reads changes)
    (ran : spec.merge changes = .ok merged) :
    (Value.map ((merged.mapKeys Key.toValue).toEntries id)).Reads merged :=
  spec?_of_merged baseReads patchReads (Spec.merge_mapKeys_of_ok Key.toValue_beq_toValue ran)

/-- Merging mappings one after the other onto the first is merging their specs so. -/
theorem merged_in_turn_iff_merge {base first second result : Value} {spec changes further : Spec Key}
    (baseReads : base.Reads spec) (firstReads : first.Reads changes)
    (secondReads : second.Reads further) :
    (∃ middle, base.merged first = .ok middle ∧ middle.merged second = .ok result) ↔
      ∃ merged, (∃ middle, spec.merge changes = .ok middle ∧ middle.merge further = .ok merged) ∧
        .map ((merged.mapKeys Key.toValue).toEntries id) = result := by
  constructor
  · rintro ⟨_, step, next⟩
    obtain ⟨middle, stepped, rfl⟩ := (merged_iff_merge baseReads firstReads).mp step
    have reads := reads_of_merge baseReads firstReads stepped
    obtain ⟨merged, ran, same⟩ := (merged_iff_merge reads secondReads).mp next
    exact ⟨merged, ⟨middle, stepped, ran⟩, same⟩
  · rintro ⟨merged, ⟨middle, stepped, ran⟩, same⟩
    have reads := reads_of_merge baseReads firstReads stepped
    exact ⟨_, (merged_iff_merge baseReads firstReads).mpr ⟨middle, stepped, rfl⟩,
      (merged_iff_merge reads secondReads).mpr ⟨merged, ran, same⟩⟩

/-- Merging the later two mappings first is merging their specs so. -/
theorem merged_at_once_iff_merge {base first second result : Value}
    {spec changes further : Spec Key}
    (baseReads : base.Reads spec) (firstReads : first.Reads changes)
    (secondReads : second.Reads further) :
    (∃ patch, first.merged second = .ok patch ∧ base.merged patch = .ok result) ↔
      ∃ merged, (∃ patch, changes.merge further = .ok patch ∧ spec.merge patch = .ok merged) ∧
        .map ((merged.mapKeys Key.toValue).toEntries id) = result := by
  constructor
  · rintro ⟨_, step, next⟩
    obtain ⟨patch, stepped, rfl⟩ := (merged_iff_merge firstReads secondReads).mp step
    have reads := reads_of_merge firstReads secondReads stepped
    obtain ⟨merged, ran, same⟩ := (merged_iff_merge baseReads reads).mp next
    exact ⟨merged, ⟨patch, stepped, ran⟩, same⟩
  · rintro ⟨merged, ⟨patch, stepped, ran⟩, same⟩
    have reads := reads_of_merge firstReads secondReads stepped
    exact ⟨_, (merged_iff_merge firstReads secondReads).mpr ⟨patch, stepped, rfl⟩,
      (merged_iff_merge baseReads reads).mpr ⟨merged, ran, same⟩⟩

private theorem merged_assoc {base first second result : Value} (isBase : base.IsTextMap)
    (isFirst : first.IsTextMap) (isSecond : second.IsTextMap) :
    (∃ middle, base.merged first = .ok middle ∧ middle.merged second = .ok result) ↔
      ∃ patch, first.merged second = .ok patch ∧ base.merged patch = .ok result := by
  obtain ⟨spec, baseReads, _⟩ := isTextMap_iff.mp isBase
  obtain ⟨changes, firstReads, _⟩ := isTextMap_iff.mp isFirst
  obtain ⟨further, secondReads, distinct⟩ := isTextMap_iff.mp isSecond
  rw [merged_in_turn_iff_merge baseReads firstReads secondReads,
    merged_at_once_iff_merge baseReads firstReads secondReads]
  simp only [Spec.merge_assoc distinct]

theorem isTextMap_merged {base patch merged : Value} (isBase : base.IsTextMap)
    (isPatch : patch.IsTextMap) (ran : base.merged patch = .ok merged) : merged.IsTextMap := by
  obtain ⟨spec, baseReads, distinct⟩ := isTextMap_iff.mp isBase
  obtain ⟨changes, patchReads, further⟩ := isTextMap_iff.mp isPatch
  obtain ⟨result, step, rfl⟩ := (merged_iff_merge baseReads patchReads).mp ran
  refine isTextMap_iff.mpr ⟨result, reads_of_merge baseReads patchReads step, ?_⟩
  obtain ⟨_, rfl⟩ := Spec.merge_eq_ok.mp step
  exact Spec.hasDistinctKeys_patched distinct further

/-- A merge of mappings that comes to a spec comes to a mapping that is this spec. -/
private theorem exists_merged {base patch : Value} {spec changes merged : Spec Key}
    (baseReads : base.Reads spec) (patchReads : patch.Reads changes)
    (ran : spec.merge changes = .ok merged) :
    ∃ result, base.merged patch = .ok result ∧ result.Reads merged :=
  ⟨_, (merged_iff_merge baseReads patchReads).mpr ⟨merged, ran, rfl⟩,
    reads_of_merge baseReads patchReads ran⟩

private theorem reads_empty : (Value.map []).Reads .nil := rfl

end Value

/-- A value that is such a mapping. Data files hold no others, and merging makes no others. -/
structure TextMap extends GivenValue where
  keyed : value.TextKeyed

instance : Coe TextMap Value where
  coe map := map.value

namespace TextMap

theorem isTextMap (map : TextMap) : map.value.IsTextMap :=
  ⟨map.keyed, map.distinct⟩

/-- A mapping of which it has been shown. -/
def ofValue (value : Value) (isMap : value.IsTextMap) : TextMap :=
  ⟨⟨value, isMap.distinct⟩, isMap.keyed⟩

/-- What the merge of two of them comes to. -/
def ofMerge {base patch : TextMap} {merged : Value}
    (ran : base.value.merged patch.value = .ok merged) : TextMap :=
  ofValue merged (Value.isTextMap_merged base.isTextMap patch.isTextMap ran)

end TextMap

/-- **Merging is a partial monoid.** Among the mappings whose keys are texts, whatever their leaves
are, a merge is such a mapping again. Merging two of them in turn onto a third succeeds where merging
the two with each other and the result onto the third does, and with the same result, to the leaf and
in the same order. The empty mapping merged onto any, or any onto it, gives what was there, and so
does a mapping merged onto itself, but that each of its scopes becomes a plain mapping. -/
theorem Value.merging_is_partial_monoid (base first second : TextMap) :
    (∀ merged, base.value.merged first = .ok merged → merged.IsTextMap) ∧
    (∀ result,
      (∃ middle, base.value.merged first = .ok middle ∧ middle.merged second = .ok result) ↔
        ∃ patch, first.value.merged second = .ok patch ∧ base.value.merged patch = .ok result) ∧
    (∃ merged, (Value.map []).merged base = .ok merged ∧ merged.spec? = base.value.spec?) ∧
    (∃ merged, base.value.merged (.map []) = .ok merged ∧ merged.spec? = base.value.spec?) ∧
    ∃ merged, base.value.merged base = .ok merged ∧
      merged.spec? = base.value.spec?.map Spec.plain := by
  have isBase := base.isTextMap
  have isFirst := first.isTextMap
  have isSecond := second.isTextMap
  obtain ⟨spec, reads, distinct⟩ := isTextMap_iff.mp isBase
  refine ⟨fun merged => isTextMap_merged isBase isFirst,
    fun result => merged_assoc isBase isFirst isSecond, ?_, ?_, ?_⟩
  · obtain ⟨merged, ran, same⟩ := exists_merged reads_empty reads (Spec.nil_merge spec)
    exact ⟨merged, ran, same.trans reads.symm⟩
  · obtain ⟨merged, ran, same⟩ := exists_merged reads reads_empty (Spec.merge_nil spec)
    exact ⟨merged, ran, same.trans reads.symm⟩
  · obtain ⟨merged, ran, same⟩ := exists_merged reads reads (Spec.merge_itself distinct)
    refine ⟨merged, ran, same.trans ?_⟩
    rw [show base.value.spec? = some (spec.mapKeys Key.toValue) from reads, Option.map_some,
      Spec.plain_mapKeys]

private def cardSpec : Value :=
  .map [(.text "color", .text "red"), (.text "on", .map [(.text "width", .int 1)])]

/-- A patch that reaches into a scope, and adds one for the next patch to reach into. -/
private def cardPatches : Value × Value :=
  (.map [(.text "on", .map [(.text "height", .int 2)]), (.text "off", .map [])],
    .map [(.text "off", .map [(.text "width", .int 0)]), (.text "color", .text "blue")])

theorem Value.merging_is_partial_monoid_of_card :
    cardSpec.IsTextMap ∧ cardPatches.1.IsTextMap ∧ cardPatches.2.IsTextMap ∧
    ∃ middle result, cardSpec.merged cardPatches.1 = .ok middle ∧
      middle.merged cardPatches.2 = .ok result ∧ middle.IsTextMap ∧
      (∃ patch, cardPatches.1.merged cardPatches.2 = .ok patch ∧
        cardSpec.merged patch = .ok result) ∧
      ∃ same, cardSpec.merged cardSpec = .ok same ∧
        same.spec? = cardSpec.spec?.map Spec.plain := by
  have isBase : cardSpec.IsTextMap := isTextMap_iff.mpr
    ⟨.leaf (.ofText "color") (.text "red") (.scope (.ofText "on") none
      (.leaf (.ofText "width") (.int 1) .nil) .nil), rfl, rfl⟩
  have isFirst : cardPatches.1.IsTextMap := isTextMap_iff.mpr
    ⟨.scope (.ofText "on") none (.leaf (.ofText "height") (.int 2) .nil)
      (.scope (.ofText "off") none .nil .nil), rfl, rfl⟩
  have isSecond : cardPatches.2.IsTextMap := isTextMap_iff.mpr
    ⟨.scope (.ofText "off") none (.leaf (.ofText "width") (.int 0) .nil)
      (.leaf (.ofText "color") (.text "blue") .nil), rfl, rfl⟩
  have runs : (cardSpec.mergedInTurn [cardPatches.1, cardPatches.2]).isOk = true := by
    decide +kernel
  obtain ⟨result, ran⟩ := exists_of_isOk runs
  obtain ⟨middle, step, ran⟩ := bind_eq_ok.mp ran
  obtain ⟨_, next, same⟩ := bind_eq_ok.mp ran
  cases same
  obtain ⟨closed, assoc, _, _, itself⟩ :=
    merging_is_partial_monoid (.ofValue cardSpec isBase) (.ofValue cardPatches.1 isFirst)
      (.ofValue cardPatches.2 isSecond)
  exact ⟨isBase, isFirst, isSecond, middle, result, step, next, closed middle step,
    (assoc result).mp ⟨middle, step, next⟩, itself⟩

end ScopedStyle
