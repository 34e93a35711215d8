import ScopedStyle.SpecMerge

/-! Merging as an algebra of specs. What stands under a key after a merge is told from what stood
there before; from this follows that patches may be merged with each other first, and that doing so
never meets a conflict that merging them one after the other would not have met. -/
namespace ScopedStyle

variable {κ : Type} [BEq κ]

/-- What becomes of an entry under a patch that has this for its key. -/
def Entry.overlaid : Entry κ → Option (Entry κ) → Entry κ
  | .leaf _, some (.leaf replacement) => .leaf replacement
  | .scope inner, some (.scope changes) => .scope (inner.patched changes)
  | entry, _ => entry

theorem Entry.leaf_overlaid (value : Value) (patch : Option (Entry κ)) :
    ∃ replacement, (Entry.leaf value).overlaid patch = .leaf replacement := by
  cases patch with
  | none => exact ⟨value, rfl⟩
  | some entry => cases entry <;> exact ⟨_, rfl⟩

theorem Entry.scope_overlaid (inner : Spec κ) (patch : Option (Entry κ)) :
    (Entry.scope inner).overlaid patch = .scope inner ∨
      ∃ changes, patch = some (.scope changes) ∧
        (Entry.scope inner).overlaid patch = .scope (inner.patched changes) := by
  cases patch with
  | none => exact .inl rfl
  | some entry =>
    cases entry with
    | leaf value => exact .inl rfl
    | scope changes => exact .inr ⟨changes, rfl, rfl⟩

namespace Spec

theorem overlaid_append (first second patch : Spec κ) :
    (first.append second).overlaid patch =
      (first.overlaid patch).append (second.overlaid patch) := by
  induction first with
  | nil => rfl
  | leaf key value rest ih =>
    simp only [append, overlaid]
    split <;> simp [append, ih]
  | scope key traits inner rest _ ih =>
    simp only [append, overlaid]
    split <;> simp [append, ih]

theorem beyond_append (base first second : Spec κ) :
    base.beyond (first.append second) = (base.beyond first).append (base.beyond second) := by
  induction first with
  | nil => rfl
  | leaf key value rest ih =>
    simp only [append, beyond]
    split <;> simp [append, ih]
  | scope key traits inner rest _ ih =>
    simp only [append, beyond]
    split <;> simp [append, ih]

theorem firstConflict?_append (base first second : Spec κ) :
    base.firstConflict? (first.append second) =
      (base.firstConflict? first).or (base.firstConflict? second) := by
  induction first with
  | nil => simp [append, firstConflict?]
  | leaf key value rest ih =>
    simp only [append, firstConflict?]
    split <;> simp [ih]
  | scope key traits inner rest _ ih =>
    simp only [append, firstConflict?]
    split <;> simp [ih, Option.or_assoc]

/-- A merge succeeds exactly where there is no conflict. -/
theorem merge_eq_ok {base patch merged : Spec κ} :
    base.merge patch = .ok merged ↔
      base.firstConflict? patch = none ∧ base.patched patch = merged := by
  cases conflict : base.firstConflict? patch <;> simp [merge, conflict]

theorem no_conflict_leaf {base rest : Spec κ} {key : κ} {value : Value} :
    base.firstConflict? (.leaf key value rest) = none ↔
      (∀ inner, base.find? key ≠ some (.scope inner)) ∧ base.firstConflict? rest = none := by
  cases held : base.find? key with
  | none => simp [firstConflict?, held]
  | some entry => cases entry <;> simp [firstConflict?, held]

theorem no_conflict_scope {base changes rest : Spec κ} {key : κ} {traits : Option (Traits Value)} :
    base.firstConflict? (.scope key traits changes rest) = none ↔
      (∀ value, base.find? key ≠ some (.leaf value)) ∧
      (∀ inner, base.find? key = some (.scope inner) → inner.firstConflict? changes = none) ∧
      base.firstConflict? rest = none := by
  cases held : base.find? key with
  | none => simp [firstConflict?, held]
  | some entry => cases entry <;> simp [firstConflict?, held]

private theorem no_conflict_beyond {base second : Spec κ} (first : Spec κ)
    (free : base.firstConflict? second = none) :
    base.firstConflict? (first.beyond second) = none := by
  induction second with
  | nil => rfl
  | leaf key value rest ih =>
    obtain ⟨noScope, further⟩ := no_conflict_leaf.mp free
    simp only [beyond]
    split
    · exact ih further
    · exact no_conflict_leaf.mpr ⟨noScope, ih further⟩
  | scope key traits changes rest _ ih =>
    obtain ⟨noLeaf, below, further⟩ := no_conflict_scope.mp free
    simp only [beyond]
    split
    · exact ih further
    · exact no_conflict_scope.mpr ⟨noLeaf, below, ih further⟩

theorem overlaid_beyond (base first second : Spec κ) :
    (base.beyond first).overlaid second = base.beyond (first.overlaid second) := by
  induction first with
  | nil => rfl
  | leaf key value rest ih =>
    simp only [beyond, overlaid]
    split <;> split <;> simp_all [beyond, overlaid]
  | scope key traits inner rest _ ih =>
    simp only [beyond, overlaid]
    split <;> split <;> simp_all [beyond, overlaid]

/-- Under keys that no key tells apart stands the same. -/
theorem find?_congr_of_indistinct {key other : κ} (indistinct : ∀ first, (first == key) = (first == other))
    (spec : Spec κ) : spec.find? key = spec.find? other := by
  induction spec with
  | nil => rfl
  | leaf first value rest ih => simp [find?, indistinct, ih]
  | scope first traits inner rest _ ih => simp [find?, indistinct, ih]

/-- What a base has under a key is what the patch makes of it, provided that the patch does not tell
the base's own key from the one that is asked for. -/
theorem find?_overlaid_of_indistinct {patch : Spec κ} {key : κ}
    (indistinct : ∀ first, (first == key) = true → patch.find? first = patch.find? key)
    (base : Spec κ) :
    (base.overlaid patch).find? key = (base.find? key).map (·.overlaid (patch.find? key)) := by
  induction base with
  | nil => rfl
  | leaf first value rest ih =>
    by_cases met : (first == key) = true
    · simp only [overlaid, indistinct first met]
      cases patch.find? key with
      | none => simp [find?, met, Entry.overlaid]
      | some entry => cases entry <;> simp [find?, met, Entry.overlaid]
    · simp only [overlaid]
      split <;> simp [find?, met, ih]
  | scope first traits inner rest _ ih =>
    by_cases met : (first == key) = true
    · simp only [overlaid, indistinct first met]
      cases patch.find? key with
      | none => simp [find?, met, Entry.overlaid]
      | some entry => cases entry <;> simp [find?, met, Entry.overlaid, patched]
    · simp only [overlaid]
      split <;> simp [find?, met, ih]

section Lookup

variable [EquivBEq κ]

/-- Under keys that are the same stands the same. -/
theorem find?_congr {key other : κ} (same : (key == other) = true) (spec : Spec κ) :
    spec.find? key = spec.find? other :=
  find?_congr_of_indistinct (fun _ => BEq.congr_right same) spec

theorem find?_overlaid (base patch : Spec κ) (key : κ) :
    (base.overlaid patch).find? key = (base.find? key).map (·.overlaid (patch.find? key)) :=
  find?_overlaid_of_indistinct (fun _ same => find?_congr same patch) base

/-- Beyond a base stands what only the patch has. -/
theorem find?_beyond (base patch : Spec κ) (key : κ) :
    (base.beyond patch).find? key =
      if (base.find? key).isSome then none else patch.find? key := by
  induction patch with
  | nil => simp [beyond, find?]
  | leaf first value rest ih =>
    by_cases met : (first == key) = true
    · simp only [beyond, find?_congr met base]
      split <;> simp_all [find?]
    · simp only [beyond]
      split <;> simp [find?, met, ih]
  | scope first traits inner rest _ ih =>
    by_cases met : (first == key) = true
    · simp only [beyond, find?_congr met base]
      split <;> simp_all [find?]
    · simp only [beyond]
      split <;> simp [find?, met, ih]

/-- What stands under a key of a patched base: what the patch makes of the base's entry, or the
patch's own where the base has none. -/
theorem find?_patched (base patch : Spec κ) (key : κ) :
    (base.patched patch).find? key =
      match base.find? key with
      | some entry => some (entry.overlaid (patch.find? key))
      | none => patch.find? key := by
  rw [patched, find?_append, find?_overlaid, find?_beyond]
  cases base.find? key <;> simp

theorem isSome_find?_patched (base patch : Spec κ) (key : κ) :
    ((base.patched patch).find? key).isSome =
      ((base.find? key).isSome || (patch.find? key).isSome) := by
  rw [find?_patched]
  cases base.find? key <;> simp

/-- Without a conflict, two specs that both have a key have two leaves or two scopes there, and then
no conflict in these. -/
theorem entries_without_conflict {base patch : Spec κ} (free : base.firstConflict? patch = none)
    (key : κ) :
    base.find? key = none ∨ patch.find? key = none ∨
      (∃ old new, base.find? key = some (.leaf old) ∧ patch.find? key = some (.leaf new)) ∨
      ∃ inner changes, base.find? key = some (.scope inner) ∧
        patch.find? key = some (.scope changes) ∧ inner.firstConflict? changes = none := by
  induction patch with
  | nil => exact .inr (.inl rfl)
  | leaf first value rest ih =>
    obtain ⟨noScope, further⟩ := no_conflict_leaf.mp free
    by_cases met : (first == key) = true
    · rw [find?_congr met base] at noScope
      cases held : base.find? key with
      | none => exact .inl rfl
      | some entry =>
        cases entry with
        | leaf old => exact .inr (.inr (.inl ⟨old, value, rfl, by simp [find?, met]⟩))
        | scope inner => exact (noScope inner held).elim
    · simpa [find?, met] using ih further
  | scope first traits changes rest _ ih =>
    obtain ⟨noLeaf, below, further⟩ := no_conflict_scope.mp free
    by_cases met : (first == key) = true
    · rw [find?_congr met base] at noLeaf below
      cases held : base.find? key with
      | none => exact .inl rfl
      | some entry =>
        cases entry with
        | leaf old => exact (noLeaf old held).elim
        | scope inner =>
          exact .inr (.inr (.inr ⟨inner, changes, rfl, by simp [find?, met], below inner held⟩))
    · simpa [find?, met] using ih further

/-! ## Merging patches first -/

/-- What lies beyond a patched base lies beyond the base and beyond the patch. -/
theorem beyond_patched (base first second : Spec κ) :
    (base.patched first).beyond second = base.beyond (first.beyond second) := by
  induction second with
  | nil => rfl
  | leaf key value rest ih =>
    simp only [beyond, isSome_find?_patched, Bool.or_eq_true, ih]
    by_cases inFirst : (first.find? key).isSome = true <;> simp [inFirst, beyond]
  | scope key traits inner rest _ ih =>
    simp only [beyond, isSome_find?_patched, Bool.or_eq_true, ih]
    by_cases inFirst : (first.find? key).isSome = true <;> simp [inFirst, beyond]

/-- Two patches overlaid in turn are overlaid as one as soon as this holds for their merge as a
whole: what they add to the base does not depend on it. -/
private theorem patched_patched {base first second : Spec κ}
    (overlays : (base.overlaid first).overlaid second = base.overlaid (first.patched second)) :
    (base.patched first).patched second = base.patched (first.patched second) := by
  calc (base.patched first).patched second
      = (((base.overlaid first).append (base.beyond first)).overlaid second).append
          ((base.patched first).beyond second) := rfl
    _ = (base.overlaid (first.patched second)).append
          ((base.beyond (first.overlaid second)).append (base.beyond (first.beyond second))) := by
      rw [overlaid_append, overlays, overlaid_beyond, beyond_patched, append_assoc]
    _ = base.patched (first.patched second) := by
      rw [← beyond_append, patched, patched]

/-- Overlaying two patches in turn overlays their merge: only the entries that the base has count,
and what becomes of each is decided by what stands under its key. -/
private theorem overlaid_overlaid {first second : Spec κ}
    (free : first.firstConflict? second = none) (base : Spec κ) :
    (base.overlaid first).overlaid second = base.overlaid (first.patched second) := by
  induction base generalizing first second with
  | nil => rfl
  | leaf key value rest ih =>
    have merged := find?_patched first second key
    obtain absent | absent | ⟨old, new, inFirst, inSecond⟩ |
        ⟨changes, further, inFirst, inSecond, _⟩ := entries_without_conflict free key
    · simp only [absent] at merged
      simp only [overlaid, absent, merged]
      split <;> simp [ih free, *]
    · cases held : first.find? key with
      | none => simp [overlaid, merged, held, absent, ih free]
      | some entry => cases entry <;> simp [overlaid, merged, held, absent, Entry.overlaid, ih free]
    · simp [overlaid, merged, inFirst, inSecond, Entry.overlaid, ih free]
    · simp [overlaid, merged, inFirst, inSecond, Entry.overlaid, ih free]
  | scope key traits inner rest ihInner ih =>
    have merged := find?_patched first second key
    obtain absent | absent | ⟨old, new, inFirst, inSecond⟩ |
        ⟨changes, further, inFirst, inSecond, below⟩ := entries_without_conflict free key
    · simp only [absent] at merged
      simp only [overlaid, absent, merged]
      split <;> simp [ih free, *]
    · cases held : first.find? key with
      | none => simp [overlaid, merged, held, absent, ih free]
      | some entry => cases entry <;> simp [overlaid, merged, held, absent, Entry.overlaid, ih free]
    · simp [overlaid, merged, inFirst, inSecond, Entry.overlaid, ih free]
    · have inside := patched_patched (ihInner below)
      simp only [overlaid, merged, inFirst, inSecond, Entry.overlaid, ih free]
      exact congrArg (Spec.scope key none · _) inside

/-- Patches that can be merged with each other may be merged first. -/
theorem patched_assoc {first second : Spec κ} (free : first.firstConflict? second = none)
    (base : Spec κ) :
    (base.patched first).patched second = base.patched (first.patched second) :=
  patched_patched (overlaid_overlaid free base)

/-! ## Conflicts of merged patches -/

/-- A patch that is free of conflict with a patched base is so with the base itself. -/
theorem no_conflict_of_patched {base first second : Spec κ}
    (free : (base.patched first).firstConflict? second = none) :
    base.firstConflict? second = none := by
  induction second generalizing base first with
  | nil => rfl
  | leaf key value rest ih =>
    obtain ⟨noScope, further⟩ := no_conflict_leaf.mp free
    refine no_conflict_leaf.mpr ⟨fun inner held => ?_, ih further⟩
    rw [find?_patched, held] at noScope
    obtain kept | ⟨changes, _, grown⟩ := Entry.scope_overlaid inner (first.find? key)
    · exact noScope inner (congrArg some kept)
    · exact noScope _ (congrArg some grown)
  | scope key traits changes rest ihInner ih =>
    obtain ⟨noLeaf, below, further⟩ := no_conflict_scope.mp free
    rw [find?_patched] at noLeaf below
    refine no_conflict_scope.mpr ⟨fun value held => ?_, fun inner held => ?_, ih further⟩
    · obtain ⟨replacement, replaced⟩ := Entry.leaf_overlaid value (first.find? key)
      rw [held] at noLeaf
      exact noLeaf replacement (congrArg some replaced)
    · rw [held] at below
      obtain kept | ⟨_, _, grown⟩ := Entry.scope_overlaid inner (first.find? key)
      · exact below inner (congrArg some kept)
      · exact ihInner (below _ (congrArg some grown))

/-- Two patches that can be merged onto a base one after the other can be merged with each other. -/
theorem no_conflict_of_patches {base first second : Spec κ}
    (freeFirst : base.firstConflict? first = none)
    (free : (base.patched first).firstConflict? second = none) :
    first.firstConflict? second = none := by
  induction second generalizing base first with
  | nil => rfl
  | leaf key value rest ih =>
    obtain ⟨noScope, further⟩ := no_conflict_leaf.mp free
    refine no_conflict_leaf.mpr ⟨fun inner held => ?_, ih freeFirst further⟩
    rw [find?_patched] at noScope
    obtain absent | absent | ⟨_, _, _, inFirst⟩ | ⟨old, _, inBase, inFirst, _⟩ :=
      entries_without_conflict freeFirst key
    · exact noScope inner (by rw [absent]; exact held)
    · exact absurd (absent.symm.trans held) (by simp)
    · exact absurd (inFirst.symm.trans held) (by simp)
    · exact noScope _ (by rw [inBase, inFirst]; rfl)
  | scope key traits changes rest ihInner ih =>
    obtain ⟨noLeaf, below, further⟩ := no_conflict_scope.mp free
    rw [find?_patched] at noLeaf below
    refine no_conflict_scope.mpr ⟨fun value held => ?_, fun inner held => ?_, ih freeFirst further⟩
    · obtain absent | absent | ⟨_, _, inBase, inFirst⟩ | ⟨_, _, _, inFirst, _⟩ :=
        entries_without_conflict freeFirst key
      · exact noLeaf value (by rw [absent]; exact held)
      · exact absurd (absent.symm.trans held) (by simp)
      · exact noLeaf _ (by rw [inBase, inFirst]; rfl)
      · exact absurd (inFirst.symm.trans held) (by simp)
    · obtain absent | absent | ⟨_, _, _, inFirst⟩ | ⟨old, _, inBase, inFirst, inside⟩ :=
        entries_without_conflict freeFirst key
      · exact below inner (by rw [absent]; exact held)
      · exact absurd (absent.symm.trans held) (by simp)
      · exact absurd (inFirst.symm.trans held) (by simp)
      · cases inFirst.symm.trans held
        exact ihInner inside (below _ (by rw [inBase, inFirst]; rfl))

private theorem no_conflict_overlaid {base first second : Spec κ}
    (freeFirst : base.firstConflict? first = none)
    (freeSecond : base.firstConflict? second = none) :
    base.firstConflict? (first.overlaid second) = none := by
  induction first generalizing base second with
  | nil => rfl
  | leaf key value rest ih =>
    obtain ⟨noScope, further⟩ := no_conflict_leaf.mp freeFirst
    simp only [overlaid]
    split <;> exact no_conflict_leaf.mpr ⟨noScope, ih further freeSecond⟩
  | scope key traits changes rest ihInner ih =>
    obtain ⟨noLeaf, below, further⟩ := no_conflict_scope.mp freeFirst
    simp only [overlaid]
    split
    · next more inSecond =>
      refine no_conflict_scope.mpr ⟨noLeaf, fun inner held => ?_, ih further freeSecond⟩
      obtain absent | absent | ⟨_, _, _, leaf⟩ | ⟨_, _, inBase, given, inside⟩ :=
        entries_without_conflict freeSecond key
      · exact absurd (absent.symm.trans held) (by simp)
      · exact absurd (absent.symm.trans inSecond) (by simp)
      · exact absurd (leaf.symm.trans inSecond) (by simp)
      · cases inBase.symm.trans held
        cases given.symm.trans inSecond
        rw [firstConflict?_append, ihInner (below _ held) inside, no_conflict_beyond _ inside]
        rfl
    · exact no_conflict_scope.mpr ⟨noLeaf, below, ih further freeSecond⟩

/-- What is free of conflict with each of two patches is so with their merge. -/
theorem no_conflict_with_patched {base first second : Spec κ}
    (freeFirst : base.firstConflict? first = none)
    (freeSecond : base.firstConflict? second = none) :
    base.firstConflict? (first.patched second) = none := by
  rw [patched, firstConflict?_append, no_conflict_overlaid freeFirst freeSecond,
    no_conflict_beyond first freeSecond]
  rfl

/-- What merging in turn leads to, merging the patches first leads to. -/
theorem merge_patches_first {base first second middle last : Spec κ}
    (step : base.merge first = .ok middle) (next : middle.merge second = .ok last) :
    ∃ patch, first.merge second = .ok patch ∧ base.merge patch = .ok last := by
  obtain ⟨freeFirst, rfl⟩ := merge_eq_ok.mp step
  obtain ⟨free, rfl⟩ := merge_eq_ok.mp next
  have between := no_conflict_of_patches freeFirst free
  refine ⟨first.patched second, merge_eq_ok.mpr ⟨between, rfl⟩, merge_eq_ok.mpr ⟨?_, ?_⟩⟩
  · exact no_conflict_with_patched freeFirst (no_conflict_of_patched free)
  · exact (patched_assoc between base).symm

end Lookup

end Spec

end ScopedStyle
