import ScopedStyle.Proofs.DistinctKeys
import ScopedStyle.Proofs.MergeConflicts
import ScopedStyle.Proofs.SpecScopes

/-! The places of scopes, before a merge and after it. What stands at a path of a merged spec is told
from what stood there on each side. When scopes are laid out depth first, those of the base keep their
order in a merge, and a scope whose counterpart in the patch has no leaves keeps its own as they are. -/
namespace ScopedStyle

theorem Entry.overlaid_none {κ : Type} [BEq κ] (entry : Entry κ) : entry.overlaid none = entry := by
  cases entry <;> rfl

namespace Spec

variable {κ : Type} [BEq κ]

/-- What stands at a path after a merge: what the patch makes of what the base has there, or what the
patch has there where the base has nothing. -/
theorem entryAt?_patched [EquivBEq κ] {base patch : Spec κ}
    (free : base.firstConflict? patch = none) (path : List κ) :
    (base.patched patch).entryAt? path =
      match base.entryAt? path with
      | some entry => some (entry.overlaid (patch.entryAt? path))
      | none => patch.entryAt? path := by
  induction path generalizing base patch with
  | nil => rfl
  | cons key further ih =>
    have merged := find?_patched base patch key
    obtain absent | absent | ⟨old, new, inBase, inPatch⟩ |
        ⟨inner, changes, inBase, inPatch, below⟩ := entries_without_conflict free key
    · simp only [absent] at merged
      simp only [entryAt?, merged, absent]
    · cases held : base.find? key with
      | none => simp only [entryAt?, merged, held]
      | some entry =>
        simp only [held, absent, Entry.overlaid_none] at merged
        cases entry with
        | leaf value =>
          simp only [entryAt?, merged, held, absent, Entry.overlaid_none]
          cases further <;> rfl
        | scope inner =>
          simp only [entryAt?, merged, held, absent, Entry.overlaid_none]
          cases inner.entryAt? further <;> rfl
    · simp only [inBase, inPatch, Entry.overlaid] at merged
      simp only [entryAt?, merged, inBase, inPatch]
      cases further <;> rfl
    · simp only [inBase, inPatch, Entry.overlaid] at merged
      simp only [entryAt?, merged, inBase, inPatch]
      exact ih below

/-- Without a conflict, two specs that both have something at a path have two leaves or two scopes
there, and then no conflict in these. -/
theorem entriesAt_without_conflict [EquivBEq κ] {base patch : Spec κ}
    (free : base.firstConflict? patch = none) (path : List κ) :
    base.entryAt? path = none ∨ patch.entryAt? path = none ∨
      (∃ old new, base.entryAt? path = some (.leaf old) ∧ patch.entryAt? path = some (.leaf new)) ∨
      ∃ inner changes, base.entryAt? path = some (.scope inner) ∧
        patch.entryAt? path = some (.scope changes) ∧ inner.firstConflict? changes = none := by
  induction path generalizing base patch with
  | nil => exact .inr (.inr (.inr ⟨base, patch, rfl, rfl, free⟩))
  | cons key further ih =>
    obtain absent | absent | ⟨old, new, inBase, inPatch⟩ |
        ⟨inner, changes, inBase, inPatch, below⟩ := entries_without_conflict free key
    · exact .inl (by simp only [entryAt?, absent])
    · exact .inr (.inl (by simp only [entryAt?, absent]))
    · simp only [entryAt?, inBase, inPatch]
      cases further with
      | nil => exact .inr (.inr (.inl ⟨old, new, rfl, rfl⟩))
      | cons _ _ => exact .inl rfl
    · simp only [entryAt?, inBase, inPatch]
      exact ih below

/-! ## Scopes by their paths -/

private theorem entryAt?_of_find? {first second : Spec κ} {key : κ}
    (same : first.find? key = second.find? key) (further : List κ) :
    first.entryAt? (key :: further) = second.entryAt? (key :: further) := by
  simp only [entryAt?, same]

/-- The scopes in a spec are those that its paths lead to, as long as no key leads to two entries. -/
theorem mem_scopesBelow_iff {spec : Spec Key} (distinct : spec.hasDistinctKeys = true)
    {path found : List String} {held : Spec Key} :
    (found, held) ∈ spec.scopesBelow path ↔
      ∃ segment further, found = path ++ segment :: further ∧
        spec.entryAt? ((segment :: further).map .ofText) = some (.scope held) := by
  induction spec generalizing path with
  | nil => simp [scopesBelow, entryAt?, find?]
  | leaf first value rest ih =>
    obtain ⟨once, others⟩ := hasDistinctKeys_leaf.mp distinct
    rw [scopesBelow, ih others]
    apply exists_congr
    intro segment
    apply exists_congr
    intro further
    apply and_congr Iff.rfl
    by_cases met : (first == Key.ofText segment) = true
    · rw [find?_congr met] at once
      simp [entryAt?, find?, met, once]
    · have passed : (leaf first value rest).find? (.ofText segment) =
          rest.find? (.ofText segment) := by simp [find?, met]
      rw [List.map_cons, entryAt?_of_find? passed]
  | scope first traits inner rest ihInner ih =>
    obtain ⟨once, inside, others⟩ := hasDistinctKeys_scope.mp distinct
    have own {segment : String} (met : (first == Key.ofText segment) = true) :
        (scope first traits inner rest).find? (.ofText segment) = some (.scope inner) := by
      simp [find?, met]
    have passed {segment : String} (other : ¬ (first == Key.ofText segment) = true) :
        (scope first traits inner rest).find? (.ofText segment) = rest.find? (.ofText segment) := by
      simp [find?, other]
    simp only [scopesBelow, List.mem_cons, List.mem_append, Prod.mk.injEq, ihInner inside, ih others]
    constructor
    · rintro (⟨rfl, rfl⟩ | ⟨segment, further, rfl, below⟩ | ⟨segment, further, rfl, after⟩)
      · refine ⟨first.text, [], rfl, ?_⟩
        rw [List.map_cons, entryAt?, own (Key.beq_iff.mpr rfl)]
        rfl
      · refine ⟨first.text, segment :: further, by simp, ?_⟩
        rw [List.map_cons, entryAt?, own (Key.beq_iff.mpr rfl)]
        exact below
      · refine ⟨segment, further, rfl, ?_⟩
        have other : ¬ (first == Key.ofText segment) = true := by
          intro met
          rw [find?_congr met] at once
          simp [entryAt?, once] at after
        rw [List.map_cons, entryAt?_of_find? (passed other)]
        exact after
    · rintro ⟨segment, further, rfl, leads⟩
      by_cases met : (first == Key.ofText segment) = true
      · have same : first.text = segment := Key.beq_iff.mp met
        rw [List.map_cons, entryAt?, own met] at leads
        cases further with
        | nil =>
          cases leads
          exact .inl ⟨by rw [same], rfl⟩
        | cons second further => exact .inr (.inl ⟨second, further, by simp [same], leads⟩)
      · rw [List.map_cons, entryAt?_of_find? (passed met)] at leads
        exact .inr (.inr ⟨segment, further, rfl, leads⟩)

/-- A spec and the scopes in it are what its paths lead to. -/
theorem mem_scopes_iff {spec : Spec Key} (distinct : spec.hasDistinctKeys = true)
    {path : List String} {held : Spec Key} :
    (path, held) ∈ spec.scopes ↔ spec.entryAt? (path.map .ofText) = some (.scope held) := by
  rw [scopes, List.mem_cons, mem_scopesBelow_iff distinct]
  cases path with
  | nil =>
    constructor
    · rintro (root | ⟨segment, others, same, _⟩)
      · cases root
        rfl
      · cases same
    · intro leads
      cases leads
      exact .inl rfl
  | cons first further =>
    constructor
    · rintro (root | ⟨segment, others, same, leads⟩)
      · simp at root
      · cases same
        exact leads
    · intro leads
      exact .inr ⟨first, further, rfl, leads⟩

theorem hasDistinctKeys_of_entryAt? {spec inner : Spec Key} (distinct : spec.hasDistinctKeys = true)
    {path : List Key} (leads : spec.entryAt? path = some (.scope inner)) :
    inner.hasDistinctKeys = true := by
  induction path generalizing spec with
  | nil =>
    cases leads
    exact distinct
  | cons key further ih =>
    cases found : spec.find? key with
    | none => simp [entryAt?, found] at leads
    | some entry =>
      cases entry with
      | leaf value => cases further <;> simp [entryAt?, found] at leads
      | scope below =>
        simp only [entryAt?, found] at leads
        exact ih (hasDistinctKeys_of_find? distinct found) leads

theorem hasDistinctKeys_of_scopes {spec held : Spec Key} (distinct : spec.hasDistinctKeys = true)
    {path : List String} (member : (path, held) ∈ spec.scopes) : held.hasDistinctKeys = true :=
  hasDistinctKeys_of_entryAt? distinct ((mem_scopes_iff distinct).mp member)

/-! ## Scopes of a merge -/

theorem scopesBelow_append (first second : Spec Key) (path : List String) :
    (first.append second).scopesBelow path = first.scopesBelow path ++ second.scopesBelow path := by
  induction first with
  | nil => rfl
  | leaf key value rest ih => simp [append, scopesBelow, ih]
  | scope key traits inner rest _ ih => simp [append, scopesBelow, ih]

private theorem sublist_scopesBelow_overlaid (base patch : Spec Key) (path : List String) :
    ((base.scopesBelow path).map (·.1)).Sublist (((base.overlaid patch).scopesBelow path).map (·.1)) := by
  induction base generalizing patch path with
  | nil => exact List.Sublist.slnil
  | leaf key value rest ih =>
    simp only [overlaid]
    split <;> exact ih patch path
  | scope key traits inner rest ihInner ih =>
    simp only [overlaid]
    split
    · next changes _ =>
      simp only [scopesBelow, scopesBelow_append, List.map_cons, List.map_append]
      apply List.Sublist.cons_cons
      apply List.Sublist.append _ (ih patch path)
      exact (ihInner changes _).trans (List.sublist_append_left _ _)
    · simp only [scopesBelow, List.map_cons, List.map_append]
      apply List.Sublist.cons_cons
      exact List.Sublist.append (List.Sublist.refl _) (ih patch path)

/-- Laid out depth first, the scopes of the base keep their order in a merge. -/
theorem sublist_scopesBelow_patched (base patch : Spec Key) (path : List String) :
    ((base.scopesBelow path).map (·.1)).Sublist (((base.patched patch).scopesBelow path).map (·.1)) := by
  rw [patched, scopesBelow_append, List.map_append]
  exact (sublist_scopesBelow_overlaid base patch path).trans (List.sublist_append_left _ _)

theorem path_of_scopes_iff {spec : Spec Key} (distinct : spec.hasDistinctKeys = true)
    {path : List String} :
    path ∈ spec.scopes.map (·.1) ↔ ∃ held, spec.entryAt? (path.map .ofText) = some (.scope held) := by
  simp [mem_scopes_iff distinct]

/-- What leads to a scope in a merge is what leads to one in the base or in the patch. -/
theorem path_of_scopes_patched {base patch : Spec Key} (free : base.firstConflict? patch = none)
    (distinct : base.hasDistinctKeys = true) (further : patch.hasDistinctKeys = true)
    {path : List String} :
    path ∈ (base.patched patch).scopes.map (·.1) ↔
      path ∈ base.scopes.map (·.1) ∨ path ∈ patch.scopes.map (·.1) := by
  rw [path_of_scopes_iff (hasDistinctKeys_patched distinct further), path_of_scopes_iff distinct,
    path_of_scopes_iff further, entryAt?_patched free]
  obtain absent | absent | ⟨old, new, inBase, inPatch⟩ | ⟨inner, changes, inBase, inPatch, _⟩ :=
    entriesAt_without_conflict free (path.map .ofText)
  · simp [absent]
  · cases held : base.entryAt? (path.map .ofText) with
    | none => simp [absent]
    | some entry => simp [absent, Entry.overlaid_none]
  · simp [inBase, inPatch, Entry.overlaid]
  · simp [inBase, inPatch, Entry.overlaid]

/-! ## Leaves of a merge -/

theorem leaves_append {κ : Type} (first second : Spec κ) :
    (first.append second).leaves = first.leaves ++ second.leaves := by
  induction first with
  | nil => rfl
  | leaf key value rest ih => simp [append, leaves, ih]
  | scope key traits inner rest _ ih => simp [append, leaves, ih]

theorem find?_of_leafless {patch : Spec κ} (leafless : patch.leaves = []) (key : κ) (value : Value) :
    patch.find? key ≠ some (.leaf value) := by
  induction patch with
  | nil => simp [find?]
  | leaf first held rest _ => simp [leaves] at leafless
  | scope first traits inner rest _ ih =>
    by_cases met : (first == key) = true
    · simp [find?, met]
    · simpa [find?, met] using ih leafless

/-- A leaf with the value that a patch has for it. -/
def replaced (patch : Spec κ) (leaf : κ × Value) : κ × Value :=
  match patch.find? leaf.1 with
  | some (.leaf replacement) => (leaf.1, replacement)
  | _ => leaf

theorem key_replaced (patch : Spec κ) (leaf : κ × Value) : (patch.replaced leaf).1 = leaf.1 := by
  unfold replaced
  split <;> rfl

theorem replaced_of_leafless {patch : Spec κ} (leafless : patch.leaves = []) (leaf : κ × Value) :
    patch.replaced leaf = leaf := by
  unfold replaced
  split
  · next value found => exact absurd found (find?_of_leafless leafless leaf.1 value)
  · rfl

theorem leaves_overlaid (base patch : Spec κ) :
    (base.overlaid patch).leaves = base.leaves.map patch.replaced := by
  induction base with
  | nil => rfl
  | leaf key value rest ih =>
    simp only [overlaid, leaves, List.map_cons, replaced]
    cases patch.find? key with
    | none => simp [leaves, ih]
    | some entry => cases entry <;> simp [leaves, ih]
  | scope key traits inner rest _ ih =>
    simp only [overlaid]
    split <;> exact ih

theorem leaves_beyond (base patch : Spec κ) :
    (base.beyond patch).leaves = patch.leaves.filter fun leaf => (base.find? leaf.1).isNone := by
  induction patch with
  | nil => rfl
  | leaf key value rest ih =>
    simp only [beyond, leaves, List.filter_cons]
    cases base.find? key <;> simp [leaves, ih]
  | scope key traits inner rest _ ih =>
    simp only [beyond]
    split <;> exact ih

/-- A merge has the leaves of the base with the values of the patch, and then those that only the patch
has. -/
theorem leaves_patched (base patch : Spec κ) :
    (base.patched patch).leaves =
      base.leaves.map patch.replaced ++
        patch.leaves.filter fun leaf => (base.find? leaf.1).isNone := by
  rw [patched, leaves_append, leaves_overlaid, leaves_beyond]

/-- A patch without leaves of its own leaves those of the base as they are. -/
theorem leaves_patched_of_leafless {patch : Spec κ} (leafless : patch.leaves = []) (base : Spec κ) :
    (base.patched patch).leaves = base.leaves := by
  have kept : patch.replaced = id := funext (replaced_of_leafless leafless)
  rw [leaves_patched, kept, leafless, List.map_id, List.filter_nil, List.append_nil]

/-- A scope of the base has its own leaves in a merge where the patch has none at its path. -/
theorem leaves_of_scopes_patched {base patch held merged : Spec Key}
    (free : base.firstConflict? patch = none) (distinct : base.hasDistinctKeys = true)
    (further : patch.hasDistinctKeys = true) {path : List String}
    (inBase : (path, held) ∈ base.scopes) (inMerge : (path, merged) ∈ (base.patched patch).scopes)
    (leafless : ∀ changes, (path, changes) ∈ patch.scopes → changes.leaves = []) :
    merged.leaves = held.leaves := by
  rw [mem_scopes_iff distinct] at inBase
  rw [mem_scopes_iff (hasDistinctKeys_patched distinct further), entryAt?_patched free, inBase]
    at inMerge
  obtain absent | absent | ⟨old, _, leaf, _⟩ | ⟨inner, changes, own, inPatch, _⟩ :=
    entriesAt_without_conflict free (path.map .ofText)
  · cases inBase.symm.trans absent
  · simp only [absent, Entry.overlaid_none] at inMerge
    cases inMerge
    rfl
  · cases inBase.symm.trans leaf
  · simp only [inPatch, Entry.overlaid] at inMerge
    cases inMerge
    exact leaves_patched_of_leafless (leafless changes ((mem_scopes_iff further).mpr inPatch)) held

end Spec
end ScopedStyle
