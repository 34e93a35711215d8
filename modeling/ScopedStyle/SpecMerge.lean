import ScopedStyle.Spec
import ScopedStyle.ValueEquality

/-! Merging a patch onto a spec. Scopes are merged with scopes and leaves replaced by leaves, and a
scope that would meet a leaf is a conflict. The base keeps its order, and what only the patch has
follows in the order of the patch. -/
namespace ScopedStyle

/-- A place where a patch and a base have entries of different shapes. -/
structure Conflict (κ : Type) where
  path : List κ
  /-- Whether the scope is on the side of the patch. -/
  patchIsScope : Bool

/-- A conflict seen from the scope that holds the key. -/
def Conflict.below {κ : Type} (key : κ) (conflict : Conflict κ) : Conflict κ :=
  { conflict with path := key :: conflict.path }

namespace Spec

variable {κ : Type} [BEq κ]

/-- The first conflict in the order of the patch, scopes before what comes after them. -/
def firstConflict? (base : Spec κ) : Spec κ → Option (Conflict κ)
  | .nil => none
  | .leaf key _ rest =>
    match base.find? key with
    | some (.scope _) => some ⟨[key], false⟩
    | _ => base.firstConflict? rest
  | .scope key _ inner rest =>
    match base.find? key with
    | some (.leaf _) => some ⟨[key], true⟩
    | some (.scope found) =>
      ((found.firstConflict? inner).map (·.below key)).or (base.firstConflict? rest)
    | none => base.firstConflict? rest

/-- The entries of a patch whose keys a base does not have. -/
def beyond (base : Spec κ) : Spec κ → Spec κ
  | .nil => .nil
  | .leaf key value rest =>
    if (base.find? key).isSome then base.beyond rest else .leaf key value (base.beyond rest)
  | .scope key traits inner rest =>
    if (base.find? key).isSome then base.beyond rest
    else .scope key traits inner (base.beyond rest)

/-- The entries of a base as a patch leaves them: a leaf takes the value that the patch has for it,
and a scope is merged with the scope that the patch has for it. -/
def overlaid : Spec κ → Spec κ → Spec κ
  | .nil, _ => .nil
  | .leaf key value rest, patch =>
    match patch.find? key with
    | some (.leaf replacement) => .leaf key replacement (rest.overlaid patch)
    | _ => .leaf key value (rest.overlaid patch)
  | .scope key traits inner rest, patch =>
    match patch.find? key with
    | some (.scope changes) =>
      .scope key none ((inner.overlaid changes).append (inner.beyond changes)) (rest.overlaid patch)
    | _ => .scope key traits inner (rest.overlaid patch)

/-- A base with a patch on it, as if there were no conflict. -/
def patched (base patch : Spec κ) : Spec κ :=
  (base.overlaid patch).append (base.beyond patch)

/-- A base with a patch on it, or the first conflict between them. -/
def merge (base patch : Spec κ) : Except (Conflict κ) (Spec κ) :=
  match base.firstConflict? patch with
  | some conflict => .error conflict
  | none => .ok (base.patched patch)

theorem beyond_nil (patch : Spec κ) : (nil : Spec κ).beyond patch = patch := by
  induction patch with
  | nil => rfl
  | leaf key value rest ih => simp [beyond, find?, ih]
  | scope key traits inner rest _ ih => simp [beyond, find?, ih]

theorem overlaid_nil (base : Spec κ) : base.overlaid nil = base := by
  induction base with
  | nil => rfl
  | leaf key value rest ih => simp [overlaid, find?, ih]
  | scope key traits inner rest _ ih => simp [overlaid, find?, ih]

theorem firstConflict?_nil (patch : Spec κ) : (nil : Spec κ).firstConflict? patch = none := by
  induction patch with
  | nil => rfl
  | leaf key value rest ih => simp [firstConflict?, find?, ih]
  | scope key traits inner rest _ ih => simp [firstConflict?, find?, ih]

/-- The empty patch changes nothing. -/
theorem merge_nil (base : Spec κ) : base.merge nil = .ok base := by
  simp [merge, firstConflict?, patched, overlaid_nil, beyond]

/-- On an empty base a patch is the result. -/
theorem nil_merge (patch : Spec κ) : (nil : Spec κ).merge patch = .ok patch := by
  simp [merge, firstConflict?_nil, patched, overlaid, beyond_nil, append]

end Spec

/-- The keys that the segments of a path are, or the first segment that is no text, counted from a
number on. -/
def pathKeys (counted : Nat) : List Value → Except Fault (List Key)
  | [] => .ok []
  | segment :: rest =>
    match segment.key? with
    | some key => do
      let keys ← pathKeys (counted + 1) rest
      .ok (key :: keys)
    | none => .error (.unwritablePath counted segment.kindName)

/-- The fault that a conflict below a scope comes to. -/
def Conflict.fault (path : List Key) (conflict : Conflict Value) : Fault :=
  match pathKeys path.length conflict.path with
  | .ok keys => .merge (.shapeConflict conflict.patchIsScope) (path ++ keys)
  | .error fault => fault

/-- A spec with a patch, which has to be a mapping, merged onto it. -/
def mergedOnto (path : List Key) (base : Spec Value) (patch : Value) :
    Except Fault (Spec Value) :=
  match patch.entries? with
  | none => .error (.spec (.patchNotMapping patch.kindName) path)
  | some changes =>
    match base.merge (.ofEntries changes) with
    | .ok merged => .ok merged
    | .error conflict => .error (conflict.fault path)

/-- Two values, which have to be mappings, merged below the scope with a path. -/
def mergeValues (path : List Key) (base patch : Value) : Except Fault (Spec Value) :=
  match base.entries? with
  | none => .error (.spec (.baseNotMapping base.kindName) path)
  | some entries => mergedOnto path (.ofEntries entries) patch

/-- A mapping with another merged onto it, as a mapping again. -/
def Value.merged (base patch : Value) : Except Fault Value :=
  (mergeValues [] base patch).map fun spec => .map (spec.toEntries id)

end ScopedStyle
