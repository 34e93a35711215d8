import ScopedStyle.Proofs.TextKeys

/-! What checking a spec does to it: where every key is a text it settles each leaf and forgets what
held a scope, and nothing else. Since settling is idempotent, and a merge looks neither at the values
of leaves nor at what holds a scope, it makes no difference to a checked merge whether its base was
checked before. -/
namespace ScopedStyle

@[simp] theorem Value.settled_settled (value : Value) : value.settled.settled = value.settled := by
  cases held : value.content with
  | list items =>
    have once : value.settled = .tuple items := by simp only [settled, held]
    rw [once]
    rfl
  | _ =>
    have once : value.settled = value := by simp only [settled, held]
    rw [once, once]

variable {κ μ : Type}

/-- A spec with its leaves as they are kept and its scopes as plain mappings. -/
def Spec.settled : Spec κ → Spec κ
  | .nil => .nil
  | .leaf key value rest => .leaf key value.settled rest.settled
  | .scope key _ inner rest => .scope key none inner.settled rest.settled

/-- What stands under a key of a settled spec. -/
def Entry.settled : Entry κ → Entry κ
  | .leaf value => .leaf value.settled
  | .scope inner => .scope inner.settled

namespace Spec

@[simp] theorem settled_settled (spec : Spec κ) : spec.settled.settled = spec.settled := by
  induction spec with
  | nil => rfl
  | leaf key value rest ih => simp [settled, ih]
  | scope key traits inner rest ihInner ih => simp [settled, ihInner, ih]

theorem settled_append (first second : Spec κ) :
    (first.append second).settled = first.settled.append second.settled := by
  induction first with
  | nil => rfl
  | leaf key value rest ih => simp [append, settled, ih]
  | scope key traits inner rest _ ih => simp [append, settled, ih]

theorem settled_mapKeys (name : κ → μ) (spec : Spec κ) :
    (spec.mapKeys name).settled = spec.settled.mapKeys name := by
  induction spec with
  | nil => rfl
  | leaf key value rest ih => simp [mapKeys, settled, ih]
  | scope key traits inner rest ihInner ih => simp [mapKeys, settled, ihInner, ih]

/-! ## Settling and merging -/

section Merging

variable [BEq κ]

theorem find?_settled (spec : Spec κ) (key : κ) :
    spec.settled.find? key = (spec.find? key).map (·.settled) := by
  induction spec with
  | nil => rfl
  | leaf first value rest ih =>
    by_cases met : (first == key) = true <;> simp [settled, find?, met, ih, Entry.settled]
  | scope first traits inner rest _ ih =>
    by_cases met : (first == key) = true <;> simp [settled, find?, met, ih, Entry.settled]

theorem hasDistinctKeys_settled (spec : Spec κ) :
    spec.settled.hasDistinctKeys = spec.hasDistinctKeys := by
  induction spec with
  | nil => rfl
  | leaf key value rest ih => simp [settled, hasDistinctKeys, find?_settled, ih]
  | scope key traits inner rest ihInner ih =>
    simp [settled, hasDistinctKeys, find?_settled, ihInner, ih]

/-- A patch meets the same conflict in a base and in the settled base. -/
theorem firstConflict?_settled (base patch : Spec κ) :
    base.settled.firstConflict? patch = base.firstConflict? patch := by
  induction patch generalizing base with
  | nil => rfl
  | leaf key value rest ih =>
    simp only [firstConflict?, find?_settled, ih]
    cases base.find? key with
    | none => rfl
    | some entry => cases entry <;> rfl
  | scope key traits inner rest ihInner ih =>
    simp only [firstConflict?, find?_settled, ih]
    cases base.find? key with
    | none => rfl
    | some entry =>
      cases entry with
      | leaf value => rfl
      | scope found => simp only [Option.map_some, Entry.settled, ihInner]

theorem beyond_settled (base patch : Spec κ) : base.settled.beyond patch = base.beyond patch := by
  induction patch with
  | nil => rfl
  | leaf key value rest ih => simp only [beyond, find?_settled, Option.isSome_map, ih]
  | scope key traits inner rest _ ih => simp only [beyond, find?_settled, Option.isSome_map, ih]

theorem overlaid_settled (base patch : Spec κ) :
    (base.settled.overlaid patch).settled = (base.overlaid patch).settled := by
  induction base generalizing patch with
  | nil => rfl
  | leaf key value rest ih =>
    simp only [settled, overlaid]
    split <;> simp [settled, ih]
  | scope key traits inner rest ihInner ih =>
    simp only [settled, overlaid]
    split <;> simp [settled, settled_append, ih, ihInner, beyond_settled]

/-- Settling the base first changes nothing of a settled merge. -/
theorem patched_settled (base patch : Spec κ) :
    (base.settled.patched patch).settled = (base.patched patch).settled := by
  rw [patched, settled_append, overlaid_settled, beyond_settled, ← settled_append, patched]

end Merging

/-! ## Checked specs -/

/-- Checking a spec of texts settles it. -/
theorem snapshot_mapKeys (spec : Spec Key) (path : List Key) :
    (spec.mapKeys Key.toValue).snapshot path = .ok spec.settled := by
  induction spec generalizing path with
  | nil => rfl
  | leaf key value rest ih =>
    simp [mapKeys, snapshot, settled, checkedKey, ih, bind, Except.bind]
  | scope key traits inner rest ihInner ih =>
    simp [mapKeys, snapshot, settled, checkedKey, ih, ihInner, bind, Except.bind]

theorem text_of_checkedKey {path : List Key} {value : Value} {key : Key}
    (read : checkedKey path value = .ok key) : value.text? = some key.text := by
  simp only [checkedKey] at read
  split at read
  · next found =>
    cases read
    rw [← Value.map_text_key?, found, Option.map_some]
  · cases read

/-- A spec that passes the check is one of texts. -/
theorem textKeyed_of_snapshot {spec : Spec Value} {path : List Key} {checked : Spec Key}
    (ran : spec.snapshot path = .ok checked) : spec.TextKeyed := by
  induction spec generalizing path checked with
  | nil => exact ⟨.nil, rfl⟩
  | leaf given value rest ih =>
    obtain ⟨key, read, ran⟩ := bind_eq_ok.mp ran
    obtain ⟨others, ran, _⟩ := bind_eq_ok.mp ran
    exact textKeyed_leaf.mpr ⟨⟨_, text_of_checkedKey read⟩, ih ran⟩
  | scope given traits inner rest ihInner ih =>
    obtain ⟨key, read, ran⟩ := bind_eq_ok.mp ran
    obtain ⟨inside, below, ran⟩ := bind_eq_ok.mp ran
    obtain ⟨others, ran, _⟩ := bind_eq_ok.mp ran
    exact textKeyed_scope.mpr ⟨⟨_, text_of_checkedKey read⟩, ihInner below, ih ran⟩

/-- A checked spec, with values for keys again, is the spec that was checked with its leaves
settled. -/
theorem mapKeys_of_snapshot {spec : Spec Value} {path : List Key} {checked : Spec Key}
    (ran : spec.snapshot path = .ok checked) : checked.mapKeys Key.toValue = spec.settled := by
  obtain ⟨keyed, rfl⟩ := textKeyed_of_snapshot ran
  rw [snapshot_mapKeys, Except.ok.injEq] at ran
  rw [← ran, settled_mapKeys]

/-- The check settles a spec in any case, so that of a settled spec comes to the same. -/
theorem snapshot_settled (spec : Spec Value) (path : List Key) :
    spec.settled.snapshot path = spec.snapshot path := by
  induction spec generalizing path with
  | nil => rfl
  | leaf key value rest ih => simp only [settled, snapshot, ih, Value.settled_settled]
  | scope key traits inner rest ihInner ih => simp only [settled, snapshot, ih, ihInner]

/-- A merge onto a checked spec is checked like the merge onto the spec that was checked. -/
theorem snapshot_patched_settled (base patch : Spec Value) (path : List Key) :
    (base.settled.patched patch).snapshot path = (base.patched patch).snapshot path := by
  rw [← snapshot_settled (base.settled.patched patch), patched_settled, snapshot_settled]

end Spec

namespace Value

theorem snapshot_of_spec? {value : Value} {spec : Spec Value} (read : value.spec? = some spec)
    (path : List Key) : value.snapshot path = spec.snapshot path := by
  obtain ⟨entries, held, rfl⟩ := Option.map_eq_some_iff.mp read
  simp only [snapshot, held]

/-- A value that passes the check is a mapping. -/
theorem spec?_of_snapshot {value : Value} {path : List Key} {checked : Spec Key}
    (ran : value.snapshot path = .ok checked) :
    ∃ spec, value.spec? = some spec ∧ spec.snapshot path = .ok checked := by
  cases held : value.entries? with
  | none => simp [snapshot, held] at ran
  | some entries =>
    have read : value.spec? = some (.ofEntries entries) := by
      simp only [spec?, held, Option.map_some]
    exact ⟨_, read, (snapshot_of_spec? read path).symm.trans ran⟩

end Value

end ScopedStyle
