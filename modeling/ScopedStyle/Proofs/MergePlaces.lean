import Mathlib.Data.List.Find
import ScopedStyle.Proofs.MappingPlaces

/-! What merging comes to, told place by place. Two mappings cannot be merged if at some path one of them
has a scope and the other a value, and the first such path in the order of the patch is the one that is
reported. Otherwise each place has what the patch has there, or what the base has if the patch has
nothing, and a scope of both has the keys of the base and after them those that only the patch has. -/
namespace ScopedStyle

namespace Value

/-- Whether the one mapping has a scope at a path and the other a value that is none. -/
def clashesAt (base patch : Value) (place : List String) : Bool :=
  match base.at? place, patch.at? place with
  | some old, some new => old.isScope != new.isScope
  | _, _ => false

/-- The keys of one mapping, and after them those that only another has. -/
def mergedKeys (base patch : Value) : List Value :=
  base.keys ++ patch.keys.filter fun key => !base.keys.contains key

end Value

/-- What a merge makes of what its base and its patch have at a place. -/
inductive MergedPlace : Option Value → Option Value → Option Value → Prop where
  /-- What the patch does not have is left as it is. -/
  | base : MergedPlace old none old
  /-- What the base does not have is taken as it is. -/
  | patch : MergedPlace none new new
  /-- A value takes the place of a value as a whole. -/
  | value (was : old.isScope = false) (is : new.isScope = false) :
      MergedPlace (some old) (some new) (some new)
  /-- A scope that both have keeps the order of the base. -/
  | scope (was : old.isScope = true) (is : new.isScope = true) (merged : result.isScope = true)
      (keys : result.keys = old.mergedKeys new) : MergedPlace (some old) (some new) (some result)

namespace Spec

/-- The paths to the entries of a spec, each before those that lead on through it. -/
def places {κ : Type} (spec : Spec κ) : List (List κ) :=
  (spec.placedEntries []).map (·.place)

/-! ## Keys of a merge -/

variable {κ : Type}

theorem keys_append (first second : Spec κ) :
    (first.append second).keys = first.keys ++ second.keys := by
  induction first with
  | nil => rfl
  | leaf key value rest ih => simp [append, keys, ih]
  | scope key traits inner rest _ ih => simp [append, keys, ih]

section Keys

variable [BEq κ]

theorem keys_overlaid (base patch : Spec κ) : (base.overlaid patch).keys = base.keys := by
  induction base with
  | nil => rfl
  | leaf key value rest ih =>
    simp only [overlaid]
    split <;> simp [keys, ih]
  | scope key traits inner rest _ ih =>
    simp only [overlaid]
    split <;> simp [keys, ih]

theorem keys_beyond (base patch : Spec κ) :
    (base.beyond patch).keys = patch.keys.filter fun key => (base.find? key).isNone := by
  induction patch with
  | nil => rfl
  | leaf key value rest ih =>
    simp only [beyond, keys, List.filter_cons]
    cases base.find? key <;> simp [keys, ih]
  | scope key traits inner rest _ ih =>
    simp only [beyond, keys, List.filter_cons]
    cases base.find? key <;> simp [keys, ih]

/-- A merge has the keys of the base in their order, and then those that only the patch has. -/
theorem keys_patched (base patch : Spec κ) :
    (base.patched patch).keys =
      base.keys ++ patch.keys.filter fun key => (base.find? key).isNone := by
  rw [patched, keys_append, keys_overlaid, keys_beyond]

end Keys

theorem contains_keys (spec : Spec Key) (key : Key) :
    (spec.keys.map Key.toValue).contains key.toValue = (spec.find? key).isSome := by
  induction spec with
  | nil => rfl
  | leaf first value rest ih =>
    rw [keys, List.map_cons, List.contains_cons, ih, Key.toValue_beq_toValue, BEq.comm]
    by_cases met : (first == key) = true <;> simp [find?, met]
  | scope first traits inner rest _ ih =>
    rw [keys, List.map_cons, List.contains_cons, ih, Key.toValue_beq_toValue, BEq.comm]
    by_cases met : (first == key) = true <;> simp [find?, met]

/-! ## Values of a merge -/

theorem under?_append (first second : Spec Key) (name : String) :
    (first.append second).under? name = (first.under? name).or (second.under? name) := by
  induction first with
  | nil => simp [append, under?]
  | leaf key value rest ih => by_cases met : key.text = name <;> simp [append, under?, met, ih]
  | scope key traits inner rest _ ih =>
    by_cases met : key.text = name <;> simp [append, under?, met, ih]

theorem under?_beyond (base patch : Spec Key) (key : Key) :
    (base.beyond patch).under? key.text =
      if (base.find? key).isSome then none else patch.under? key.text := by
  induction patch with
  | nil => simp [beyond, under?]
  | leaf first value rest ih =>
    by_cases met : first.text = key.text
    · simp only [beyond, find?_congr (Key.beq_iff.mpr met) base]
      split <;> simp_all [under?]
    · simp only [beyond]
      split <;> simp [under?, met, ih]
  | scope first traits inner rest _ ih =>
    by_cases met : first.text = key.text
    · simp only [beyond, find?_congr (Key.beq_iff.mpr met) base]
      split <;> simp_all [under?]
    · simp only [beyond]
      split <;> simp [under?, met, ih]

theorem under?_overlaid (base patch : Spec Key) (key : Key) :
    (base.overlaid patch).under? key.text =
      match base.find? key, patch.find? key with
      | some (.scope inner), some (.scope changes) => some (inner.patched changes).toValue
      | some (.leaf _), some (.leaf value) => some value
      | _, _ => base.under? key.text := by
  induction base with
  | nil => rfl
  | leaf first value rest ih =>
    by_cases met : first.text = key.text
    · have same : (first == key) = true := Key.beq_iff.mpr met
      simp only [overlaid, find?_congr same patch, find?, same, ↓reduceIte]
      cases patch.find? key with
      | none => simp [under?, met]
      | some entry => cases entry <;> simp [under?, met]
    · have other : ¬ (first == key) = true := fun same => met (Key.beq_iff.mp same)
      simp only [overlaid, find?, other, under?, met, ↓reduceIte, Bool.false_eq_true]
      split <;> simp only [under?, met, ↓reduceIte, ih]
  | scope first traits inner rest _ ih =>
    by_cases met : first.text = key.text
    · have same : (first == key) = true := Key.beq_iff.mpr met
      simp only [overlaid, find?_congr same patch, find?, same, ↓reduceIte]
      cases patch.find? key with
      | none => simp [under?, met]
      | some entry => cases entry <;> simp [under?, met, held, patched, toValue]
    · have other : ¬ (first == key) = true := fun same => met (Key.beq_iff.mp same)
      simp only [overlaid, find?, other, under?, met, ↓reduceIte, Bool.false_eq_true]
      split <;> simp only [under?, met, ↓reduceIte, ih]

/-- What a merge has under a key: scopes of both are merged, a leaf gives way to a leaf, and all else
is what the base has, or the patch where the base has nothing. -/
theorem under?_patched (base patch : Spec Key) (key : Key) :
    (base.patched patch).under? key.text =
      match base.find? key, patch.find? key with
      | some (.scope inner), some (.scope changes) => some (inner.patched changes).toValue
      | some (.leaf _), some (.leaf value) => some value
      | some _, _ => base.under? key.text
      | none, _ => patch.under? key.text := by
  rw [patched, under?_append, under?_overlaid, under?_beyond]
  cases inBase : base.find? key with
  | none => simp [under?_of_none inBase]
  | some entry =>
    have held := isSome_under? base key
    rw [inBase, Option.isSome_some] at held
    obtain ⟨value, held⟩ := Option.isSome_iff_exists.mp held
    cases entry <;> rcases inPatch : patch.find? key with _ | _ | _ <;> simp [held]

end Spec

namespace Value

/-! ## Merges place by place -/

variable {base patch value : Value} {spec changes : Spec Key}

theorem reads_patched (baseReads : base.Reads spec) (patchReads : patch.Reads changes) :
    (spec.patched changes).toValue.Reads (spec.patched changes) := by
  have readable := Spec.readable_patched (readable_of_reads baseReads) (readable_of_reads patchReads)
  rw [← Spec.mapKeys_patched Key.toValue_beq_toValue] at readable
  rw [Reads, Spec.toValue, ← Spec.toEntries_mapKeys]
  exact Spec.spec?_toEntries readable

theorem keys_patched (baseReads : base.Reads spec) (patchReads : patch.Reads changes) :
    (spec.patched changes).toValue.keys = base.mergedKeys patch := by
  have lacking : ((fun key => !base.keys.contains key) ∘ Key.toValue) =
      fun key => (spec.find? key).isNone := by
    funext key
    rw [Function.comp_apply, keys_of_reads baseReads, Spec.contains_keys]
    cases spec.find? key <;> rfl
  rw [keys_of_reads (reads_patched baseReads patchReads), Spec.keys_patched, mergedKeys,
    List.map_append, keys_of_reads patchReads, List.filter_map, lacking, keys_of_reads baseReads]

/-- What a merge has under a name: what one side has that is alone there, the value of the patch, or the
merge of two scopes. -/
theorem under?_of_merge (baseReads : base.Reads spec) (patchReads : patch.Reads changes)
    (free : spec.firstConflict? changes = none) (name : String) :
    (base.under? name = none ∧ (spec.patched changes).toValue.under? name = patch.under? name) ∨
      (patch.under? name = none ∧ (spec.patched changes).toValue.under? name = base.under? name) ∨
      (∃ old new, base.under? name = some old ∧ patch.under? name = some new ∧
        old.isScope = false ∧ new.isScope = false ∧
        (spec.patched changes).toValue.under? name = some new) ∨
      ∃ old new inner more, base.under? name = some old ∧ patch.under? name = some new ∧
        old.isScope = true ∧ new.isScope = true ∧ old.Reads inner ∧ new.Reads more ∧
        inner.firstConflict? more = none ∧
        (spec.patched changes).toValue.under? name = some (inner.patched more).toValue := by
  have readable := readable_of_reads baseReads
  have further := readable_of_reads patchReads
  have merged := Spec.under?_patched spec changes (.ofText name)
  rw [under?_of_reads baseReads, under?_of_reads patchReads,
    under?_of_reads (reads_patched baseReads patchReads)]
  obtain absent | absent | ⟨_, new, inBase, inPatch⟩ | ⟨inner, more, inBase, inPatch, below⟩ :=
    Spec.entries_without_conflict free (.ofText name)
  · rw [absent] at merged
    exact .inl ⟨Spec.under?_of_none absent, merged⟩
  · have nothing := Spec.under?_of_none absent
    refine .inr (.inl ⟨nothing, merged.trans ?_⟩)
    rw [absent]
    cases inBase : spec.find? (.ofText name) with
    | none => exact nothing.trans (Spec.under?_of_none inBase).symm
    | some entry => cases entry <;> rfl
  · rw [inBase, inPatch] at merged
    obtain ⟨old, single⟩ := Spec.under?_of_leaf readable inBase
    obtain ⟨given, alone⟩ := Spec.under?_of_leaf further inPatch
    exact .inr (.inr (.inl ⟨_, new, old, given, single, alone, merged⟩))
  · rw [inBase, inPatch] at merged
    obtain ⟨old, held, scope, reads⟩ := Spec.under?_of_scope readable inBase
    obtain ⟨new, given, nested, alike⟩ := Spec.under?_of_scope further inPatch
    exact .inr (.inr (.inr
      ⟨old, new, inner, more, held, given, scope, nested, reads, alike, below, merged⟩))

/-- Below its root, a merge has at each place what is to be made of what both sides have there. -/
theorem mergedPlace_of_reads (baseReads : base.Reads spec) (patchReads : patch.Reads changes)
    (free : spec.firstConflict? changes = none) (name : String) (further : List String) :
    MergedPlace (base.at? (name :: further)) (patch.at? (name :: further))
      ((spec.patched changes).toValue.at? (name :: further)) := by
  induction further generalizing base patch spec changes name with
  | nil =>
    obtain ⟨absent, merged⟩ | ⟨absent, merged⟩ | ⟨old, new, held, given, single, alone, merged⟩ |
        ⟨old, new, inner, more, held, given, scope, nested, reads, alike, below, merged⟩ :=
      under?_of_merge baseReads patchReads free name
    · simp only [at?, absent, merged]
      exact .patch
    · simp only [at?, absent, merged]
      exact .base
    · simp only [at?, held, given, merged, List.isEmpty_nil, Bool.true_or, ↓reduceIte]
      exact .value single alone
    · simp only [at?, held, given, merged, List.isEmpty_nil, Bool.true_or, ↓reduceIte]
      exact .scope scope nested rfl (keys_patched reads alike)
  | cons second further ih =>
    obtain ⟨absent, merged⟩ | ⟨absent, merged⟩ | ⟨old, new, held, given, single, alone, merged⟩ |
        ⟨old, new, inner, more, held, given, scope, nested, reads, alike, below, merged⟩ :=
      under?_of_merge baseReads patchReads free name
    · rw [at?, at?, at?, absent, merged]
      exact .patch
    · rw [at?, at?, at?, absent, merged]
      exact .base
    · rw [at?, at?, at?, held, given, merged]
      simp only [List.isEmpty_cons, single, alone, Bool.or_self, Bool.false_eq_true, ↓reduceIte]
      exact .base
    · rw [at?, at?, at?, held, given, merged]
      have whole : (inner.patched more).toValue.isScope = true := rfl
      simp only [scope, nested, whole, Bool.or_true, ↓reduceIte]
      exact ih reads alike below second

/-! ## Clashes -/

/-- Merging mappings comes to their merge, or to their first conflict below the scope with a path. -/
theorem mergeValues_of_reads (baseReads : base.Reads spec) (patchReads : patch.Reads changes)
    (path : List Key) :
    mergeValues path base patch =
      match spec.firstConflict? changes with
      | none => .ok ((spec.patched changes).mapKeys Key.toValue)
      | some conflict =>
        .error (.merge (.shapeConflict conflict.patchIsScope) (path ++ conflict.path)) := by
  have faithful := Key.toValue_beq_toValue
  obtain ⟨entries, held, same⟩ := Option.map_eq_some_iff.mp baseReads
  obtain ⟨others, given, alike⟩ := Option.map_eq_some_iff.mp patchReads
  simp only [mergeValues, mergedOnto, held, given, same, alike, Spec.merge,
    Spec.firstConflict?_mapKeys faithful, ← Spec.mapKeys_patched faithful]
  cases spec.firstConflict? changes with
  | none => rfl
  | some conflict =>
    simp only [Option.map_some, Conflict.fault, Conflict.mapKeys, pathKeys_toValue]

/-- At the place of an entry of a mapping stands a scope, if the entry is one, and otherwise none. -/
theorem at?_of_placed (patchReads : patch.Reads changes) (distinct : changes.hasDistinctKeys = true)
    {entry : PlacedEntry Key} (member : entry ∈ changes.placedEntries []) :
    (patch.at? (entry.place.map (·.text))).map isScope = some entry.value?.isNone := by
  obtain ⟨key, further, place, found, leads, shape⟩ := Spec.entryAt?_of_placed distinct member
  rw [place, List.nil_append, at?_of_reads patchReads, leads, Option.map_some, shape]

/-- An entry of the patch clashes with the base if the mappings clash at its place. -/
theorem clashes_of_placed (baseReads : base.Reads spec) (patchReads : patch.Reads changes)
    (distinct : changes.hasDistinctKeys = true) {entry : PlacedEntry Key}
    (member : entry ∈ changes.placedEntries []) :
    spec.clashes entry = base.clashesAt patch (entry.place.map (·.text)) := by
  obtain ⟨key, further, place, _⟩ := Spec.entryAt?_of_placed distinct member
  have onBase := at?_of_reads baseReads key further
  have onPatch := at?_of_placed patchReads distinct member
  rw [List.nil_append] at place
  rw [place] at onPatch
  obtain ⟨new, inPatch, isNew⟩ := Option.map_eq_some_iff.mp onPatch
  rw [Spec.clashes, clashesAt, place, inPatch]
  cases inSpec : spec.entryAt? (key :: further) with
  | none =>
    rw [inSpec, Option.map_none, Option.map_eq_none_iff] at onBase
    rw [onBase]
  | some held =>
    rw [inSpec, Option.map_some] at onBase
    obtain ⟨old, inBase, isOld⟩ := Option.map_eq_some_iff.mp onBase
    rw [inBase]
    cases held <;> cases given : entry.value? <;> simp_all [Entry.isScope]

/-- Where there is no conflict, mappings clash nowhere. -/
theorem no_clash_of_reads (baseReads : base.Reads spec) (patchReads : patch.Reads changes)
    (free : spec.firstConflict? changes = none) (name : String) (further : List String) :
    base.clashesAt patch (name :: further) = false := by
  have placed := mergedPlace_of_reads baseReads patchReads free name further
  unfold clashesAt
  generalize base.at? (name :: further) = old at placed
  generalize patch.at? (name :: further) = new at placed
  generalize (spec.patched changes).toValue.at? (name :: further) = result at placed
  cases placed with
  | base => cases old <;> rfl
  | patch => rfl
  | value was is => simp [was, is]
  | scope was is merged keys => simp [was, is]

private theorem reads_unique (reads : value.Reads spec) (again : value.Reads changes) :
    spec = changes :=
  Spec.mapKeys_injective Key.toValue_injective (Option.some.inj (reads.symm.trans again))

/-- The first conflict is at the first path of the patch at which the mappings clash. -/
theorem firstConflict?_of_reads (baseReads : base.Reads spec) (patchReads : patch.Reads changes)
    (distinct : changes.hasDistinctKeys = true) {conflict : Conflict Key}
    (first : spec.firstConflict? changes = some conflict) :
    ∃ old new, changes.places.find? (fun place => base.clashesAt patch (place.map (·.text))) =
        some conflict.path ∧
      base.at? (conflict.path.map (·.text)) = some old ∧
      patch.at? (conflict.path.map (·.text)) = some new ∧
      conflict.patchIsScope = new.isScope ∧ old.isScope = !new.isScope := by
  rw [Spec.firstConflict?_eq] at first
  obtain ⟨entry, found, rfl⟩ := Option.map_eq_some_iff.mp first
  have member := List.mem_of_find?_eq_some found
  rw [List.find?_congr fun _ among => clashes_of_placed baseReads patchReads distinct among] at found
  have clash := List.find?_some found
  obtain ⟨new, inPatch, isNew⟩ :=
    Option.map_eq_some_iff.mp (at?_of_placed patchReads distinct member)
  cases inBase : base.at? (entry.place.map (·.text)) with
  | none => simp [clashesAt, inBase] at clash
  | some old =>
    have other : old.isScope ≠ new.isScope := by simpa [clashesAt, inBase, inPatch] using clash
    refine ⟨old, new, ?_, inBase, inPatch, isNew.symm, Bool.eq_not_iff.mpr other⟩
    rw [Spec.places, List.find?_map, Function.comp_def, found]
    rfl

end Value

/-- **A merge is told place by place.** Two mappings with texts for keys cannot be merged exactly if at
some path that leads anywhere the one has a scope and the other none. Of these paths the first in the
order of the patch is reported, depth first, behind the path that is given, and the message tells what
the patch has there and what the base. Otherwise the merge has the keys of the base in their order and
then those of the patch alone, and so does each scope that both have; where both have a value the merge
has that of the patch, and what only one of the two has is taken as it is. -/
theorem Value.merging_goes_place_by_place (base patch : TextMap) (path : List Key) :
    ((∃ fault, mergeValues path base patch = .error fault) ↔
      ∃ place, place ≠ [] ∧ base.value.clashesAt patch place = true) ∧
    (∀ fault changes, mergeValues path base patch = .error fault → patch.value.Reads changes →
      ∃ place old new,
        changes.places.find? (fun place => base.value.clashesAt patch (place.map (·.text))) =
          some place ∧
        base.value.at? (place.map (·.text)) = some old ∧
        patch.value.at? (place.map (·.text)) = some new ∧
        fault = .merge (.shapeConflict new.isScope) (path ++ place) ∧
        fault.message = "Cannot merge " ++ sideName new.isScope ++ " onto " ++
          sideName old.isScope ++ " at " ++ quoted (dotted (path ++ place))) ∧
    ∀ merged, mergeValues path base patch = .ok merged →
      (Value.map (merged.toEntries id)).keys = base.value.mergedKeys patch ∧
      ∀ place, place ≠ [] → MergedPlace (base.value.at? place) (patch.value.at? place)
        ((Value.map (merged.toEntries id)).at? place) := by
  obtain ⟨spec, baseReads, _⟩ := isTextMap_iff.mp base.isTextMap
  obtain ⟨changes, patchReads, distinct⟩ := isTextMap_iff.mp patch.isTextMap
  have ran := mergeValues_of_reads baseReads patchReads path
  cases first : spec.firstConflict? changes with
  | none =>
    rw [first] at ran
    refine ⟨⟨?_, ?_⟩, ?_, ?_⟩
    · rintro ⟨fault, failed⟩
      cases failed.symm.trans ran
    · rintro ⟨place, proper, clash⟩
      cases place with
      | nil => exact absurd rfl proper
      | cons name further =>
        rw [no_clash_of_reads baseReads patchReads first] at clash
        cases clash
    · intro fault _ failed
      cases failed.symm.trans ran
    · intro merged succeeded
      cases succeeded.symm.trans ran
      rw [Spec.toEntries_mapKeys]
      refine ⟨keys_patched baseReads patchReads, ?_⟩
      intro place proper
      cases place with
      | nil => exact absurd rfl proper
      | cons name further => exact mergedPlace_of_reads baseReads patchReads first name further
  | some conflict =>
    rw [first] at ran
    obtain ⟨old, new, found, inBase, inPatch, side, other⟩ :=
      firstConflict?_of_reads baseReads patchReads distinct first
    refine ⟨⟨?_, ?_⟩, ?_, ?_⟩
    · intro _
      have clash := List.find?_some found
      have among := List.mem_of_find?_eq_some found
      refine ⟨conflict.path.map (·.text), ?_, clash⟩
      obtain ⟨entry, _, place⟩ := List.mem_map.mp among
      simp [← place, PlacedEntry.place]
    · intro _
      exact ⟨_, ran⟩
    · intro fault own failed ownReads
      cases reads_unique patchReads ownReads
      cases failed.symm.trans ran
      refine ⟨conflict.path, old, new, found, inBase, inPatch, by rw [side], ?_⟩
      rw [side, other]
      rfl
    · intro merged succeeded
      cases succeeded.symm.trans ran

/-- A value that converts, though it is a mapping. -/
private def badge : Value :=
  .derived ⟨0, "Badge", .returns (.text "gold")⟩ (.map [(.text "color", .text "red")])

private def badgeSheet : Value :=
  .map [(.text "color", .text "red"), (.text "on", .map [(.text "width", .int 1), (.text "mark", badge)])]

/-- A patch with a scope for the value that converts, and another for one that does not. -/
private def clashingPatch : Value :=
  .map [(.text "on", .map [(.text "mark", .map [])]), (.text "color", .map [])]

private def fittingPatch : Value :=
  .map [(.text "on", .map [(.text "height", .int 2), (.text "mark", .int 3)]), (.text "off", badge)]

/-- The deeper clash is met first; without clashes the values of the patch stand in the order of the
base. -/
theorem Value.merging_goes_place_by_place_of_badge :
    badgeSheet.IsTextMap ∧ clashingPatch.IsTextMap ∧ fittingPatch.IsTextMap ∧
    (∃ fault, mergeValues [.ofText "theme"] badgeSheet clashingPatch = .error fault ∧
      fault.message = "Cannot merge variant onto value at 'theme.on.mark'") ∧
    ∃ merged, mergeValues [] badgeSheet fittingPatch = .ok merged ∧
      (Value.map (merged.toEntries id)).keys = [.text "color", .text "on", .text "off"] ∧
      MergedPlace (some badge) (some (.int 3))
        ((Value.map (merged.toEntries id)).at? ["on", "mark"]) := by
  have isBase : badgeSheet.IsTextMap := isTextMap_iff.mpr
    ⟨.leaf (.ofText "color") (.text "red") (.scope (.ofText "on") none
      (.leaf (.ofText "width") (.int 1) (.leaf (.ofText "mark") badge .nil)) .nil), rfl, rfl⟩
  have clashReads : clashingPatch.Reads (.scope (.ofText "on") none
      (.scope (.ofText "mark") none .nil .nil) (.scope (.ofText "color") none .nil .nil)) := rfl
  have isClashing : clashingPatch.IsTextMap := isTextMap_iff.mpr ⟨_, clashReads, rfl⟩
  have isFitting : fittingPatch.IsTextMap := isTextMap_iff.mpr
    ⟨.scope (.ofText "on") none (.leaf (.ofText "height") (.int 2)
      (.leaf (.ofText "mark") (.int 3) .nil)) (.leaf (.ofText "off") badge .nil), rfl, rfl⟩
  have fits : (mergeValues [] badgeSheet fittingPatch).isOk = true := by decide +kernel
  obtain ⟨merged, ran⟩ := exists_of_isOk fits
  obtain ⟨keys, places⟩ :=
    (merging_goes_place_by_place (.ofValue badgeSheet isBase) (.ofValue fittingPatch isFitting)
      []).2.2 merged ran
  obtain ⟨fails, reported, _⟩ :=
    merging_goes_place_by_place (.ofValue badgeSheet isBase) (.ofValue clashingPatch isClashing)
      [.ofText "theme"]
  have clash : badgeSheet.clashesAt clashingPatch ["on", "mark"] = true := by decide
  obtain ⟨fault, failed⟩ := fails.mpr ⟨["on", "mark"], by decide, clash⟩
  obtain ⟨place, old, new, first, inBase, inPatch, same, message⟩ :=
    reported fault _ failed clashReads
  refine ⟨isBase, isClashing, isFitting, ⟨fault, failed, ?_⟩, merged, ran, ?_, ?_⟩
  · cases first
    cases inBase
    cases inPatch
    rw [message]
    decide +kernel
  · rw [keys]
    rfl
  · exact places ["on", "mark"] (by decide)

end ScopedStyle
