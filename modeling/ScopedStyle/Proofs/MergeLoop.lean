import ScopedStyle.Proofs.DistinctKeys

/-! Merging entry by entry. What has been merged so far is the base to begin with, and each entry of the
patch in turn is looked up in it and assigned. The merge is defined without this, by what becomes of the
entries of the base and what is beyond them; for mappings, which have no key twice, both come to the
same, down to the conflict that is met first. -/
namespace ScopedStyle.Spec

variable {κ : Type} [BEq κ]

/-! ## The loop -/

/-- The spec after an assignment to a key: an entry that is there keeps its place and the form of its
key, and a new one goes to the end. The entry is given by how it stands before others under a key. -/
def assigned (key : κ) (entry : κ → Spec κ → Spec κ) : Spec κ → Spec κ
  | .nil => entry key .nil
  | .leaf first value rest =>
    if first == key then entry first rest else .leaf first value (rest.assigned key entry)
  | .scope first traits inner rest =>
    if first == key then entry first rest else .scope first traits inner (rest.assigned key entry)

/-- What has been merged so far with the entries of a patch, each assigned in turn. -/
def mergeEntries (merged : Spec κ) : Spec κ → Except (Conflict κ) (Spec κ)
  | .nil => .ok merged
  | .leaf key value rest =>
    match merged.find? key with
    | some (.scope _) => .error ⟨[key], false⟩
    | _ => (merged.assigned key fun first => .leaf first value).mergeEntries rest
  | .scope key traits changes rest =>
    match merged.find? key with
    | none => (merged.assigned key fun first => .scope first traits changes).mergeEntries rest
    | some (.leaf _) => .error ⟨[key], true⟩
    | some (.scope inner) =>
      match inner.mergeEntries changes with
      | .error conflict => .error (conflict.below key)
      | .ok below => (merged.assigned key fun first => .scope first none below).mergeEntries rest

/-- An assignment to a key that is not there adds the entry behind all others. -/
theorem assigned_of_absent {base : Spec κ} {key : κ} (absent : base.find? key = none)
    (entry : κ → Spec κ → Spec κ) : base.assigned key entry = base.append (entry key .nil) := by
  induction base with
  | nil => rfl
  | leaf first old rest ih =>
    by_cases met : (first == key) = true
    · simp [find?, met] at absent
    · simp [assigned, append, met, ih (by simpa [find?, met] using absent)]
  | scope first traits inner rest _ ih =>
    by_cases met : (first == key) = true
    · simp [find?, met] at absent
    · simp [assigned, append, met, ih (by simpa [find?, met] using absent)]

/-! ## Patches in two parts -/

theorem isSome_find?_leaf {key later : κ} {rest : Spec κ} (value : Value)
    (held : (rest.find? later).isSome) : ((leaf key value rest).find? later).isSome := by
  simp only [find?]
  split
  · rfl
  · exact held

theorem isSome_find?_scope {key later : κ} {rest : Spec κ} (traits : Option (Traits Value))
    (inner : Spec κ) (held : (rest.find? later).isSome) :
    ((scope key traits inner rest).find? later).isSome := by
  simp only [find?]
  split
  · rfl
  · exact held

/-- Two specs have no key in common, from whichever of them this is seen. -/
private theorem apart_comm {first rest : Spec κ}
    (apart : ∀ key, (first.find? key).isSome → rest.find? key = none) (key : κ)
    (held : (rest.find? key).isSome) : first.find? key = none := by
  cases found : first.find? key with
  | none => rfl
  | some entry => simp [apart key (by simp [found])] at held

section Parts

variable [EquivBEq κ] {base other first rest patch : Spec κ} {key : κ}

theorem overlaid_of_apart (apart : ∀ key, (base.find? key).isSome → patch.find? key = none) :
    base.overlaid patch = base := by
  induction base with
  | nil => rfl
  | leaf key value rest ih =>
    have here : patch.find? key = none := apart key (by simp [find?])
    simp [overlaid, here, ih fun later held => apart later (isSome_find?_leaf value held)]
  | scope key traits inner rest _ ih =>
    have here : patch.find? key = none := apart key (by simp [find?])
    simp [overlaid, here, ih fun later held => apart later (isSome_find?_scope traits inner held)]

theorem beyond_of_apart (apart : ∀ key, (patch.find? key).isSome → base.find? key = none) :
    base.beyond patch = patch := by
  induction patch with
  | nil => rfl
  | leaf key value rest ih =>
    have here : base.find? key = none := apart key (by simp [find?])
    simp [beyond, here, ih fun later held => apart later (isSome_find?_leaf value held)]
  | scope key traits changes rest _ ih =>
    have here : base.find? key = none := apart key (by simp [find?])
    simp [beyond, here, ih fun later held => apart later (isSome_find?_scope traits changes held)]

/-- A patch that has none of the keys of the base follows it as it is. -/
theorem patched_of_apart (apart : ∀ key, (base.find? key).isSome → patch.find? key = none) :
    base.patched patch = base.append patch := by
  rw [patched, overlaid_of_apart apart, beyond_of_apart (apart_comm apart)]

/-- What a patch meets first is decided by what stands under its own keys. -/
theorem firstConflict?_congr
    (agree : ∀ key, (patch.find? key).isSome → base.find? key = other.find? key) :
    base.firstConflict? patch = other.firstConflict? patch := by
  induction patch with
  | nil => rfl
  | leaf key value rest ih =>
    have here : base.find? key = other.find? key := agree key (by simp [find?])
    have further := ih fun later held => agree later (isSome_find?_leaf value held)
    simp [firstConflict?, here, further]
  | scope key traits changes rest _ ih =>
    have here : base.find? key = other.find? key := agree key (by simp [find?])
    have further := ih fun later held => agree later (isSome_find?_scope traits changes held)
    simp [firstConflict?, here, further]

/-- A patch whose parts have no key in common is merged by merging these in turn. -/
theorem merge_append (apart : ∀ key, (first.find? key).isSome → rest.find? key = none) :
    base.merge (first.append rest) =
      match base.firstConflict? first with
      | some conflict => .error conflict
      | none => (base.patched first).merge rest := by
  have agree : (base.patched first).firstConflict? rest = base.firstConflict? rest := by
    refine firstConflict?_congr fun key held => ?_
    rw [find?_patched, apart_comm apart key held]
    cases base.find? key with
    | none => rfl
    | some entry => cases entry <;> rfl
  have clear : first.firstConflict? rest = none :=
    calc first.firstConflict? rest = (nil : Spec κ).firstConflict? rest :=
          firstConflict?_congr fun key held => apart_comm apart key held
      _ = none := firstConflict?_nil rest
  cases met : base.firstConflict? first with
  | some conflict => simp [merge, firstConflict?_append, met]
  | none =>
    simp only [merge, firstConflict?_append, met, Option.none_or, agree, patched_assoc clear base,
      patched_of_apart apart]

/-! ## Patches with one entry -/

/-- A patch with one key has no key in common with a base that lacks it. -/
private theorem apart_of_absent (absent : base.find? key = none) (single : Spec κ)
    (only : ∀ later, ¬(key == later) = true → single.find? later = none) (later : κ)
    (held : (base.find? later).isSome) : single.find? later = none := by
  refine only later fun same => ?_
  simp [← find?_congr same base, absent] at held

private theorem leaf_apart (absent : base.find? key = none) (value : Value) :
    ∀ later, (base.find? later).isSome → (leaf key value nil).find? later = none :=
  apart_of_absent absent _ fun _ other => if_neg other

private theorem scope_apart (absent : base.find? key = none) (traits : Option (Traits Value))
    (changes : Spec κ) :
    ∀ later, (base.find? later).isSome → (scope key traits changes nil).find? later = none :=
  apart_of_absent absent _ fun _ other => if_neg other

/-- Patching a value with another is assigning that. -/
theorem patched_leaf {old : Value} (distinct : base.hasDistinctKeys = true)
    (held : base.find? key = some (.leaf old)) (value : Value) :
    base.patched (.leaf key value .nil) = base.assigned key fun first => .leaf first value := by
  have nothing : base.beyond (.leaf key value .nil) = .nil := by simp [beyond, held]
  rw [patched, nothing, append_nil]
  clear nothing
  induction base with
  | nil => cases held
  | leaf first was rest ih =>
    obtain ⟨once, others⟩ := hasDistinctKeys_leaf.mp distinct
    by_cases met : (first == key) = true
    · rw [find?_congr met] at once
      simp [overlaid, assigned, find?, met, BEq.symm met, overlaid_of_apart (leaf_apart once value)]
    · have other : (key == first) = false := by rw [BEq.comm]; simpa using met
      simp [overlaid, assigned, find?, met, other, ih others (by simpa [find?, met] using held)]
  | scope first traits inner rest _ ih =>
    obtain ⟨_, _, others⟩ := hasDistinctKeys_scope.mp distinct
    by_cases met : (first == key) = true
    · simp [find?, met] at held
    · have other : (key == first) = false := by rw [BEq.comm]; simpa using met
      simp [overlaid, assigned, find?, met, other, ih others (by simpa [find?, met] using held)]

/-- Patching a scope with another is assigning the patched scope, as a plain one. -/
theorem patched_scope {inner : Spec κ} (distinct : base.hasDistinctKeys = true)
    (held : base.find? key = some (.scope inner)) (traits : Option (Traits Value))
    (changes : Spec κ) :
    base.patched (.scope key traits changes .nil) =
      base.assigned key fun first => .scope first none (inner.patched changes) := by
  have nothing : base.beyond (.scope key traits changes .nil) = .nil := by simp [beyond, held]
  rw [patched, nothing, append_nil]
  clear nothing
  induction base with
  | nil => cases held
  | leaf first was rest ih =>
    obtain ⟨_, others⟩ := hasDistinctKeys_leaf.mp distinct
    by_cases met : (first == key) = true
    · simp [find?, met] at held
    · have other : (key == first) = false := by rw [BEq.comm]; simpa using met
      simp [overlaid, assigned, find?, met, other, ih others (by simpa [find?, met] using held)]
  | scope first own inside rest _ ih =>
    obtain ⟨once, _, others⟩ := hasDistinctKeys_scope.mp distinct
    by_cases met : (first == key) = true
    · rw [find?_congr met] at once
      simp only [find?, met, ↓reduceIte, Option.some.injEq, Entry.scope.injEq] at held
      subst held
      simp [overlaid, assigned, find?, met, BEq.symm met, patched,
        overlaid_of_apart (scope_apart once traits changes)]
    · have other : (key == first) = false := by rw [BEq.comm]; simpa using met
      simp [overlaid, assigned, find?, met, other, ih others (by simpa [find?, met] using held)]

/-! ## Rounds of the loop -/

/-- A round with a value is a merge with a patch of one entry, and the rest goes on from there. -/
theorem mergeEntries_leaf (distinct : base.hasDistinctKeys = true) (value : Value) :
    base.mergeEntries (.leaf key value rest) =
      match base.firstConflict? (.leaf key value .nil) with
      | some conflict => .error conflict
      | none => (base.patched (.leaf key value .nil)).mergeEntries rest := by
  rw [mergeEntries]
  cases held : base.find? key with
  | none =>
    simp [firstConflict?, held, assigned_of_absent held, patched_of_apart (leaf_apart held value)]
  | some entry =>
    cases entry with
    | leaf old => simp [firstConflict?, held, patched_leaf distinct held]
    | scope inner => simp [firstConflict?, held]

/-- And so is a round with a scope, provided that the loop merges the scope that is there with it. -/
theorem mergeEntries_scope {changes : Spec κ} (distinct : base.hasDistinctKeys = true)
    (below : ∀ inner, base.find? key = some (.scope inner) →
      inner.mergeEntries changes = inner.merge changes) (traits : Option (Traits Value)) :
    base.mergeEntries (.scope key traits changes rest) =
      match base.firstConflict? (.scope key traits changes .nil) with
      | some conflict => .error conflict
      | none => (base.patched (.scope key traits changes .nil)).mergeEntries rest := by
  rw [mergeEntries]
  cases held : base.find? key with
  | none =>
    simp [firstConflict?, held, assigned_of_absent held,
      patched_of_apart (scope_apart held traits changes)]
  | some entry =>
    cases entry with
    | leaf old => simp [firstConflict?, held]
    | scope inner =>
      have merges := below inner held
      cases met : inner.firstConflict? changes with
      | some conflict => simp [firstConflict?, held, merges, merge, met]
      | none => simp [firstConflict?, held, merges, merge, met, patched_scope distinct held]

/-- **Merging entry by entry is merging.** Where neither mapping has a key twice in a scope, assigning
the entries of the patch in turn to what has been merged so far gives the merge, in the same order, or
ends with the same conflict. -/
theorem mergeEntries_eq_merge (base patch : Mapping κ) :
    base.spec.mergeEntries patch.spec = base.spec.merge patch.spec := by
  obtain ⟨base, distinct⟩ := base
  obtain ⟨patch, further⟩ := patch
  simp only
  -- In a scope that both have, the base is that of what has been merged so far.
  induction patch generalizing base with
  | nil => exact (merge_nil base).symm
  | leaf key value rest ih =>
    obtain ⟨once, others⟩ := hasDistinctKeys_leaf.mp further
    have parts : leaf key value rest = (leaf key value nil).append rest := rfl
    have alone : (leaf key value nil).hasDistinctKeys = true := rfl
    rw [mergeEntries_leaf distinct, parts, merge_append (apart_comm (leaf_apart once value))]
    cases base.firstConflict? (.leaf key value .nil) with
    | some conflict => rfl
    | none => exact ih _ (hasDistinctKeys_patched distinct alone) others
  | scope key traits changes rest ihInner ih =>
    obtain ⟨once, inside, others⟩ := hasDistinctKeys_scope.mp further
    have parts : scope key traits changes rest = (scope key traits changes nil).append rest := rfl
    have alone : (scope key traits changes nil).hasDistinctKeys = true :=
      hasDistinctKeys_scope.mpr ⟨rfl, inside, rfl⟩
    have below (inner : Spec κ) (held : base.find? key = some (.scope inner)) :
        inner.mergeEntries changes = inner.merge changes :=
      ihInner inner (hasDistinctKeys_of_find? distinct held) inside
    rw [mergeEntries_scope distinct below, parts,
      merge_append (apart_comm (scope_apart once traits changes))]
    cases base.firstConflict? (.scope key traits changes .nil) with
    | some conflict => rfl
    | none => exact ih _ (hasDistinctKeys_patched distinct alone) others

end Parts

/-! ## Texts for keys -/

section Renamed

variable {μ : Type} [BEq μ] {name : κ → μ}
  (faithful : ∀ key other : κ, (name key == name other) = (key == other))

include faithful

theorem mapKeys_assigned {entry : κ → Spec κ → Spec κ} {renamed : μ → Spec μ → Spec μ}
    (same : ∀ first rest, (entry first rest).mapKeys name = renamed (name first) (rest.mapKeys name))
    (spec : Spec κ) (key : κ) :
    (spec.assigned key entry).mapKeys name = (spec.mapKeys name).assigned (name key) renamed := by
  induction spec with
  | nil => exact same key .nil
  | leaf first value rest ih =>
    by_cases met : (first == key) = true <;> simp [assigned, mapKeys, faithful, met, same, ih]
  | scope first traits inner rest _ ih =>
    by_cases met : (first == key) = true <;> simp [assigned, mapKeys, faithful, met, same, ih]

/-- The loop takes the same course under other keys. -/
theorem mergeEntries_mapKeys (base patch : Spec κ) :
    (base.mapKeys name).mergeEntries (patch.mapKeys name) =
      ((base.mergeEntries patch).map (mapKeys name)).mapError (Conflict.mapKeys name) := by
  induction patch generalizing base with
  | nil => rfl
  | leaf key value rest ih =>
    have renamed : (base.assigned key fun first => .leaf first value).mapKeys name =
        (base.mapKeys name).assigned (name key) fun first => .leaf first value :=
      mapKeys_assigned faithful (fun _ _ => rfl) base key
    simp only [mapKeys, mergeEntries, find?_mapKeys faithful]
    cases base.find? key with
    | none => exact renamed ▸ ih _
    | some entry =>
      cases entry with
      | leaf old => exact renamed ▸ ih _
      | scope inner => rfl
  | scope key traits changes rest ihInner ih =>
    have renamed (own : Option (Traits Value)) (inner : Spec κ) :
        (base.assigned key fun first => .scope first own inner).mapKeys name =
          (base.mapKeys name).assigned (name key) fun first =>
            .scope first own (inner.mapKeys name) :=
      mapKeys_assigned faithful (fun _ _ => rfl) base key
    simp only [mapKeys, mergeEntries, find?_mapKeys faithful]
    cases base.find? key with
    | none => exact renamed traits changes ▸ ih _
    | some entry =>
      cases entry with
      | leaf old => rfl
      | scope inner =>
        simp only [Option.map_some, Entry.mapKeys, ihInner]
        cases inner.mergeEntries changes with
        | error conflict => rfl
        | ok below =>
          have others := ih (base.assigned key fun first => .scope first none below)
          rw [renamed none below] at others
          exact others

end Renamed

/-- Mappings with texts for keys, as they are given to be merged, are merged entry by entry, too. -/
theorem mergeEntries_eq_merge_of_textKeyed (base patch : Mapping Value)
    (baseKeyed : base.spec.TextKeyed) (patchKeyed : patch.spec.TextKeyed) :
    base.spec.mergeEntries patch.spec = base.spec.merge patch.spec := by
  obtain ⟨_, distinct⟩ := base
  obtain ⟨_, further⟩ := patch
  obtain ⟨base, rfl⟩ := baseKeyed
  obtain ⟨patch, rfl⟩ := patchKeyed
  have faithful := Key.toValue_beq_toValue
  rw [hasDistinctKeys_mapKeys faithful] at distinct further
  have same := mergeEntries_eq_merge ⟨base, distinct⟩ ⟨patch, further⟩
  simp only at same
  rw [mergeEntries_mapKeys faithful, merge_mapKeys faithful, same]

end ScopedStyle.Spec
