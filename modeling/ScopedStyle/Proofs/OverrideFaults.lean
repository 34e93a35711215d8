import ScopedStyle.Override
import ScopedStyle.Proofs.CompileFaults
import ScopedStyle.Proofs.MergeConflicts

/-! What compiling and overriding fail with. Where no conversion fails, every fault is one of the
compiler's own and carries the value or the path that it is about, with one exception: an entry of a
patch that clashes with its base is not reported as such if a key on the way to it is no text, since the
path is written out for the message before any key has been checked. -/
namespace ScopedStyle

/-! ## Leaves -/

/-- The leaves of a spec, at every depth. -/
def Spec.leafValues {κ : Type} : Spec κ → List Value
  | .nil => []
  | .leaf _ value rest => value :: rest.leafValues
  | .scope _ _ inner rest => inner.leafValues ++ rest.leafValues

/-- The leaves of the spec that a value is, if it is one. -/
def Value.leafValues (value : Value) : List Value :=
  (value.spec?.map Spec.leafValues).getD []

/-- The leaves of what is overridden. -/
def OverrideBase.leafValues : OverrideBase → List Value
  | .style compiled => compiled.spec.leafValues
  | .spec value => value.leafValues

/-- Whether no conversion of some leaves, or of items of them, fails with an error of its own. -/
def ConversionsAnswer (leaves : List Value) : Prop :=
  ∀ leaf ∈ leaves, ∀ single ∈ leaf :: leaf.items, single.raises = false

namespace Spec

variable {κ μ : Type}

theorem leafValues_append (first second : Spec κ) :
    (first.append second).leafValues = first.leafValues ++ second.leafValues := by
  induction first with
  | nil => rfl
  | leaf key value rest ih => simp [append, leafValues, ih]
  | scope key traits inner rest _ ih => simp [append, leafValues, ih]

theorem leafValues_mapKeys (name : κ → μ) (spec : Spec κ) :
    (spec.mapKeys name).leafValues = spec.leafValues := by
  induction spec with
  | nil => rfl
  | leaf key value rest ih => simp [mapKeys, leafValues, ih]
  | scope key traits inner rest ihInner ih => simp [mapKeys, leafValues, ihInner, ih]

theorem leafValues_settled (spec : Spec κ) :
    spec.settled.leafValues = spec.leafValues.map Value.settled := by
  induction spec with
  | nil => rfl
  | leaf key value rest ih => simp [settled, leafValues, ih]
  | scope key traits inner rest ihInner ih => simp [settled, leafValues, ihInner, ih]

theorem mem_leafValues_of_placed {spec : Spec κ} {path : List κ} {entry : PlacedEntry κ}
    {value : Value} (member : entry ∈ spec.placedEntries path) (held : entry.value? = some value) :
    value ∈ spec.leafValues := by
  induction spec generalizing path with
  | nil => cases member
  | leaf key first rest ih =>
    rcases List.mem_cons.mp member with rfl | later
    · cases held
      exact List.mem_cons_self
    · exact List.mem_cons_of_mem _ (ih later)
  | scope key traits inner rest ihInner ih =>
    rcases List.mem_cons.mp member with rfl | below
    · cases held
    · rcases List.mem_append.mp below with inside | later
      · exact List.mem_append_left _ (ihInner inside)
      · exact List.mem_append_right _ (ih later)

section Merging

variable [BEq κ]

private theorem leaf_mem_of_find? {spec : Spec κ} {key : κ} {value : Value}
    (found : spec.find? key = some (.leaf value)) : value ∈ spec.leafValues := by
  induction spec with
  | nil => cases found
  | leaf first held rest ih =>
    by_cases met : (first == key) = true
    · simp only [find?, met, ↓reduceIte, Option.some.injEq, Entry.leaf.injEq] at found
      simp [leafValues, found]
    · exact List.mem_cons_of_mem _ (ih (by simpa [find?, met] using found))
  | scope first traits inner rest _ ih =>
    by_cases met : (first == key) = true
    · simp [find?, met] at found
    · exact List.mem_append_right _ (ih (by simpa [find?, met] using found))

private theorem scope_subset_of_find? {spec inner : Spec κ} {key : κ}
    (found : spec.find? key = some (.scope inner)) : inner.leafValues ⊆ spec.leafValues := by
  induction spec with
  | nil => cases found
  | leaf first held rest ih =>
    by_cases met : (first == key) = true
    · simp [find?, met] at found
    · exact List.subset_cons_of_subset _ (ih (by simpa [find?, met] using found))
  | scope first traits inside rest _ ih =>
    by_cases met : (first == key) = true
    · simp only [find?, met, ↓reduceIte, Option.some.injEq, Entry.scope.injEq] at found
      subst found
      exact List.subset_append_left _ _
    · exact List.subset_append_of_subset_right _ (ih (by simpa [find?, met] using found))

theorem leafValues_beyond (base patch : Spec κ) :
    (base.beyond patch).leafValues ⊆ patch.leafValues := by
  induction patch with
  | nil => exact List.Subset.refl _
  | leaf key value rest ih =>
    simp only [beyond]
    split
    · exact List.subset_cons_of_subset _ ih
    · exact List.cons_subset_cons _ ih
  | scope key traits inner rest _ ih =>
    simp only [beyond]
    split
    · exact List.subset_append_of_subset_right _ ih
    · exact List.append_subset.mpr ⟨List.subset_append_left _ _,
        List.subset_append_of_subset_right _ ih⟩

theorem leafValues_overlaid (base patch : Spec κ) :
    (base.overlaid patch).leafValues ⊆ base.leafValues ++ patch.leafValues := by
  induction base generalizing patch with
  | nil => exact List.nil_subset _
  | leaf key value rest ih =>
    have further : (rest.overlaid patch).leafValues ⊆
        value :: rest.leafValues ++ patch.leafValues :=
      List.subset_cons_of_subset _ (ih patch)
    simp only [overlaid]
    split
    · next replacement found =>
      exact List.cons_subset.mpr
        ⟨List.mem_append_right _ (leaf_mem_of_find? found), further⟩
    · exact List.cons_subset.mpr ⟨List.mem_append_left _ List.mem_cons_self, further⟩
  | scope key traits inner rest ihInner ih =>
    have further : (rest.overlaid patch).leafValues ⊆
        inner.leafValues ++ rest.leafValues ++ patch.leafValues := by
      rw [List.append_assoc]
      exact List.subset_append_of_subset_right _ (ih patch)
    simp only [overlaid]
    split
    · next changes found =>
      have given := scope_subset_of_find? found
      simp only [leafValues, leafValues_append]
      intro value member
      simp only [List.mem_append] at member ⊢
      rcases member with (old | new) | later
      · rcases List.mem_append.mp (ihInner changes old) with own | changed
        · exact .inl (.inl own)
        · exact .inr (given changed)
      · exact .inr (given (leafValues_beyond inner changes new))
      · simpa only [List.mem_append] using further later
    · refine List.append_subset.mpr ⟨?_, further⟩
      exact List.subset_append_of_subset_left _ (List.subset_append_left _ _)

/-- A merge has no leaves but those of the base and of the patch. -/
theorem leafValues_patched (base patch : Spec κ) :
    (base.patched patch).leafValues ⊆ base.leafValues ++ patch.leafValues := by
  rw [patched, leafValues_append]
  refine List.append_subset.mpr ⟨leafValues_overlaid base patch, ?_⟩
  exact List.subset_append_of_subset_right _ (leafValues_beyond base patch)

end Merging

end Spec

/-! ## Merges -/

/-- The first entry of a patch that clashes with what is overridden, where it comes to a merge. -/
def OverrideBase.firstClash? (base : OverrideBase) (patch baseName : Value) :
    Option (PlacedEntry Value) :=
  match base.spec?, base.chosenName baseName, patch.spec? with
  | .ok given, .ok _, some changes => (changes.placedEntries []).find? given.clashes
  | _, _, _ => none

/-- A path is one of keys, or it has a first segment that is no text. -/
private theorem keys_or_not_text (path : List Value) :
    (∃ keys : List Key, keys.map Key.toValue = path) ∨
      ∃ before segment after, path = before ++ segment :: after ∧
        (∀ earlier ∈ before, ∃ text, earlier.text? = some text) ∧ segment.text? = none := by
  induction path with
  | nil => exact .inl ⟨[], rfl⟩
  | cons first rest ih =>
    cases isText : first.text? with
    | none => exact .inr ⟨[], first, rest, rfl, nofun, isText⟩
    | some text =>
      obtain ⟨key, rfl, _⟩ := Value.exists_key_of_text? isText
      obtain ⟨keys, rfl⟩ | ⟨before, segment, after, rfl, texts, noText⟩ := ih
      · exact .inl ⟨key :: keys, rfl⟩
      · exact .inr ⟨key.toValue :: before, segment, after, rfl,
          List.forall_mem_cons.mpr ⟨⟨text, isText⟩, texts⟩, noText⟩

private theorem fault_of_written {entry : PlacedEntry Value} {keys : List Key}
    (written : keys.map Key.toValue = entry.place) :
    entry.conflict.fault [] = .merge (.shapeConflict entry.value?.isNone) keys := by
  simp only [Conflict.fault, PlacedEntry.conflict, ← written, pathKeys_toValue, List.nil_append]

private theorem fault_of_unwritten {entry : PlacedEntry Value} {before after : List Value}
    {segment : Value} (split : entry.place = before ++ segment :: after)
    (texts : ∀ earlier ∈ before, ∃ text, earlier.text? = some text)
    (noText : segment.text? = none) :
    entry.conflict.fault [] = .unwritablePath before.length segment.kindName := by
  simp only [Conflict.fault, PlacedEntry.conflict, split, pathKeys_of_not_text texts noText,
    List.length_nil, Nat.zero_add]

/-- What merging comes to: the patch has to be a mapping, and then the first clash counts. -/
private theorem mergedOnto_eq (spec : Spec Value) (patch : Value) :
    mergedOnto [] spec patch =
      match patch.spec? with
      | none => .error (.spec (.patchNotMapping patch.kindName) [])
      | some changes =>
        match (changes.placedEntries []).find? spec.clashes with
        | some entry => .error (entry.conflict.fault [])
        | none => .ok (spec.patched changes) := by
  unfold mergedOnto Value.spec?
  cases patch.entries? with
  | none => rfl
  | some entries =>
    simp only [Spec.merge, Spec.firstConflict?_eq, Option.map_some]
    cases ((Spec.ofEntries entries).placedEntries []).find? spec.clashes <;> rfl

namespace Conventions

/-- What overriding can be refused for: what is to be overridden, the missing name, the patch, an entry
of the patch that clashes, with its path if this can be written; and whatever compiling the merge can be
refused for. -/
inductive OverrideRefusal (conventions : Conventions) (base : OverrideBase)
    (patch baseName : Value) : Fault → Prop
  | base (given : base = .spec value) (single : value.spec? = none) :
      conventions.OverrideRefusal base patch baseName (.merge (.notOverridable value.kindName) [])
  | name (given : base = .spec value) (missing : baseName = .null) :
      conventions.OverrideRefusal base patch baseName (.spec .noBaseName [])
  | patch (single : patch.spec? = none) :
      conventions.OverrideRefusal base patch baseName (.spec (.patchNotMapping patch.kindName) [])
  | clash (first : base.firstClash? patch baseName = some entry)
      (written : keys.map Key.toValue = entry.place) :
      conventions.OverrideRefusal base patch baseName
        (.merge (.shapeConflict entry.value?.isNone) keys)
  | unwritten {before after : List Value} {segment : Value}
      (first : base.firstClash? patch baseName = some entry)
      (split : entry.place = before ++ segment :: after)
      (texts : ∀ earlier ∈ before, ∃ text, earlier.text? = some text)
      (noText : segment.text? = none) :
      conventions.OverrideRefusal base patch baseName
        (.unwritablePath before.length segment.kindName)
  | merge (merged : base.merged patch baseName = .ok (spec, name))
      (refusal : conventions.Refusal spec name fault) :
      conventions.OverrideRefusal base patch baseName fault

variable {conventions : Conventions} {source : NameSource} {base : OverrideBase}
  {patch baseName : Value} {fault : Fault}

/-- A clash fails the override, before anything is compiled. -/
private theorem override_of_clash {entry : PlacedEntry Value}
    (first : base.firstClash? patch baseName = some entry) :
    conventions.override source base patch baseName = (.error (entry.conflict.fault []), source) := by
  unfold OverrideBase.firstClash? at first
  split at first
  · next spec name changes held named read =>
    have failed := mergedOnto_eq spec patch
    simp only [read, first] at failed
    simp only [override, OverrideBase.merged, held, named, failed, bind, Except.bind]
  · cases first

private theorem refusal_of_clash {entry : PlacedEntry Value}
    (first : base.firstClash? patch baseName = some entry) :
    conventions.OverrideRefusal base patch baseName (entry.conflict.fault []) := by
  obtain ⟨keys, written⟩ | ⟨before, segment, after, split, texts, noText⟩ :=
    keys_or_not_text entry.place
  · rw [fault_of_written written]
    exact .clash first written
  · rw [fault_of_unwritten split texts noText]
    exact .unwritten first split texts noText

private theorem refusal_of_merged (failed : base.merged patch baseName = .error fault) :
    conventions.OverrideRefusal base patch baseName fault := by
  obtain refused | ⟨spec, held, failed⟩ := bind_eq_error.mp failed
  · cases base with
    | style compiled => cases refused
    | spec value =>
      simp only [OverrideBase.spec?] at refused
      split at refused
      · cases refused
      · next single =>
        cases refused
        exact .base rfl (by rw [Value.spec?, single]; rfl)
  · obtain refused | ⟨name, named, failed⟩ := bind_eq_error.mp failed
    · unfold OverrideBase.chosenName at refused
      split at refused
      · cases refused
      · cases refused
        exact .name rfl rfl
      · cases refused
    · obtain refused | ⟨_, _, failed⟩ := bind_eq_error.mp failed
      · rw [mergedOnto_eq] at refused
        split at refused
        · next single =>
          cases refused
          exact .patch single
        · next changes read =>
          split at refused
          · next entry first =>
            cases refused
            refine refusal_of_clash ?_
            simp only [OverrideBase.firstClash?, held, named, read, first]
          · cases refused
      · cases failed

/-- Whatever overriding fails with is one of the refusals. -/
theorem refusal_of_override
    (failed : (conventions.override source base patch baseName).1 = .error fault) :
    conventions.OverrideRefusal base patch baseName fault := by
  unfold override at failed
  split at failed
  · next refused =>
    cases failed
    exact refusal_of_merged refused
  · next spec name merged => exact .merge merged (refusal_of_compileSpec failed)

end Conventions

/-! ## Conversions -/

theorem Fault.raises_of_raisedBy {fault : Fault} {singles : List Value}
    (raised : fault.RaisedBy singles) : ∃ single ∈ singles, single.raises = true := by
  obtain ⟨single, member, kind, message, way, _⟩ := raised
  exact ⟨single, member, by simp only [Value.raises, way]⟩

/-- Settling a leaf brings no conversion that fails. -/
private theorem answers_settled {leaf : Value}
    (answers : ∀ single ∈ leaf :: leaf.items, single.raises = false) :
    ∀ single ∈ leaf.settled :: leaf.settled.items, single.raises = false := by
  cases held : leaf.content with
  | list items =>
    have same : leaf.settled = .tuple items := by simp only [Value.settled, held]
    have inside : leaf.items = items := by simp only [Value.items, held]
    rw [inside] at answers
    rw [same]
    exact List.forall_mem_cons.mpr ⟨rfl, (List.forall_mem_cons.mp answers).2⟩
  | _ =>
    have same : leaf.settled = leaf := by simp only [Value.settled, held]
    rw [same]
    exact answers

private theorem answers_of_snapshot {spec : Spec Value} {checked : Spec Key}
    {entry : PlacedEntry Key} {leaf : Value} (answers : ConversionsAnswer spec.leafValues)
    (passed : spec.snapshot [] = .ok checked) (member : entry ∈ checked.placedEntries [])
    (held : entry.value? = some leaf) :
    ∀ single ∈ leaf :: leaf.items, single.raises = false := by
  have among := Spec.mem_leafValues_of_placed member held
  rw [← Spec.leafValues_mapKeys Key.toValue, Spec.mapKeys_of_snapshot passed,
    Spec.leafValues_settled] at among
  obtain ⟨given, within, rfl⟩ := List.mem_map.mp among
  exact answers_settled (answers given within)

namespace Conventions

variable {conventions : Conventions} {source : NameSource} {base : OverrideBase}
  {patch baseName : Value} {fault : Fault}

/-- Where conversions answer, a spec is refused with a fault of the compiler's own. -/
theorem Refusal.isOwn {spec : Spec Value} (refusal : conventions.Refusal spec baseName fault)
    (answers : ConversionsAnswer spec.leafValues) : fault.isOwn = true := by
  cases refusal with
  | baseName | key | name | leaf => rfl
  | conversion passed member held raised =>
    obtain ⟨single, among, raises⟩ := Fault.raises_of_raisedBy raised
    rw [answers_of_snapshot answers passed member held single among] at raises
    cases raises

private theorem answers_of_merged {spec : Spec Value} {name : Value}
    (answers : ConversionsAnswer (base.leafValues ++ patch.leafValues))
    (merged : base.merged patch baseName = .ok (spec, name)) :
    ConversionsAnswer spec.leafValues := by
  obtain ⟨given, held, merged⟩ := bind_eq_ok.mp merged
  obtain ⟨_, _, merged⟩ := bind_eq_ok.mp merged
  obtain ⟨result, ran, same⟩ := bind_eq_ok.mp merged
  cases same
  have own : given.leafValues = base.leafValues := by
    cases base with
    | style compiled =>
      cases held
      exact Spec.leafValues_mapKeys _ _
    | spec value =>
      simp only [OverrideBase.spec?] at held
      split at held
      · next entries read =>
        cases held
        simp [OverrideBase.leafValues, Value.leafValues, Value.spec?, read]
      · cases held
  rw [mergedOnto_eq] at ran
  split at ran
  · cases ran
  · next changes read =>
    split at ran
    · cases ran
    · cases ran
      intro leaf member
      refine answers leaf ?_
      have among := Spec.leafValues_patched given changes member
      simpa [own, Value.leafValues, read] using among

/-- Where conversions answer, only a clash whose path cannot be written is not reported with a fault of
the compiler's own. -/
theorem OverrideRefusal.isOwn_or (refusal : conventions.OverrideRefusal base patch baseName fault)
    (answers : ConversionsAnswer (base.leafValues ++ patch.leafValues)) :
    fault.isOwn = true ∨ ∃ entry, base.firstClash? patch baseName = some entry ∧
      ∃ segment ∈ entry.place, segment.text? = none := by
  cases refusal with
  | base | name | patch | clash => exact .inl rfl
  | unwritten first split texts noText =>
    exact .inr ⟨_, first, _, split ▸ List.mem_append_right _ List.mem_cons_self, noText⟩
  | merge merged refusal => exact .inl (refusal.isOwn (answers_of_merged answers merged))

private theorem override_of_unwritten {entry : PlacedEntry Value} {segment : Value}
    (first : base.firstClash? patch baseName = some entry) (among : segment ∈ entry.place)
    (noText : segment.text? = none) :
    ∃ index kind, (conventions.override source base patch baseName).1 =
      .error (.unwritablePath index kind) := by
  rw [override_of_clash first]
  obtain ⟨keys, written⟩ | ⟨before, other, after, split, texts, other'⟩ :=
    keys_or_not_text entry.place
  · rw [← written] at among
    obtain ⟨key, _, rfl⟩ := List.mem_map.mp among
    rw [Key.text?_toValue] at noText
    cases noText
  · exact ⟨_, _, congrArg Except.error (fault_of_unwritten split texts other')⟩

/-- **Faults are the compiler's own, unless a clash cannot be written.** Where no conversion fails,
compiling fails with a fault of the compiler's own only, which tells what it is about. So does overriding,
but for one case: the first entry of the patch that clashes with the base has a path with a key that is
no text. Every other first clash is reported as such, with its path. -/
theorem faults_are_own_unless_clash_unwritten (conventions : Conventions) (source : NameSource) :
    (∀ given baseName fault, ConversionsAnswer given.leafValues →
      (conventions.compile source given baseName).1 = .error fault →
      fault.isOwn = true ∧
        ∀ spec, given.spec? = some spec → conventions.Refusal spec baseName fault) ∧
    ∀ base patch baseName, ConversionsAnswer (base.leafValues ++ patch.leafValues) →
      (∀ fault, (conventions.override source base patch baseName).1 = .error fault →
        conventions.OverrideRefusal base patch baseName fault) ∧
      ((∃ fault, (conventions.override source base patch baseName).1 = .error fault ∧
          fault.isOwn = false) ↔
        ∃ entry, base.firstClash? patch baseName = some entry ∧
          ∃ segment ∈ entry.place, segment.text? = none) ∧
      ∀ entry keys, base.firstClash? patch baseName = some entry →
        keys.map Key.toValue = entry.place →
        conventions.override source base patch baseName =
          (.error (.merge (.shapeConflict entry.value?.isNone) keys), source) := by
  constructor
  · intro given baseName fault answers failed
    cases read : given.spec? with
    | some spec =>
      rw [compile, Value.snapshot_of_spec? read] at failed
      have refusal := refusal_of_compileSpec failed
      rw [Value.leafValues, read] at answers
      refine ⟨refusal.isOwn answers, ?_⟩
      intro _ same
      cases same
      exact refusal
    | none =>
      refine ⟨?_, by simp⟩
      by_cases named : baseName.IsBaseName
      · rw [compile, compileChecked_of_refused named (Value.snapshot_of_not_mapping read)] at failed
        cases failed
        rfl
      · rw [compile, compileChecked_of_bad_name named] at failed
        cases failed
        rfl
  · intro base patch baseName answers
    refine ⟨fun fault failed => refusal_of_override failed, ⟨?_, ?_⟩, ?_⟩
    · rintro ⟨fault, failed, foreign⟩
      rcases (refusal_of_override failed).isOwn_or answers with own | clash
      · rw [own] at foreign
        cases foreign
      · exact clash
    · rintro ⟨entry, first, segment, among, noText⟩
      obtain ⟨index, kind, failed⟩ :=
        @override_of_unwritten conventions source _ _ _ _ _ first among noText
      exact ⟨_, failed, rfl⟩
    · intro entry keys first written
      rw [override_of_clash first, fault_of_written written]

/-- A scope under a number, which the patch replaces by a value. -/
private def numberedBase : OverrideBase := .spec (.map [(.int 1, .map [])])

theorem faults_are_own_unless_clash_unwritten_of_number :
    ∃ fault, (Conventions.override {} .fresh numberedBase (.map [(.int 1, .int 5)])
      (.text "x")).1 = .error fault ∧ fault.isOwn = false := by
  have answers : ConversionsAnswer
      (numberedBase.leafValues ++ (Value.map [(.int 1, .int 5)]).leafValues) := by
    intro leaf member single among
    cases List.mem_singleton.mp member
    cases List.mem_singleton.mp among
    rfl
  obtain ⟨_, bare, _⟩ :=
    (faults_are_own_unless_clash_unwritten {} .fresh).2 numberedBase _ (.text "x") answers
  exact bare.mpr ⟨⟨[], .int 1, some (.int 5)⟩, rfl, .int 1, List.mem_singleton_self _, rfl⟩

end Conventions

end ScopedStyle
