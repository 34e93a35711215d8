import ScopedStyle.Proofs.CompiledOutline
import ScopedStyle.Proofs.EntryOrder
import ScopedStyle.Proofs.LeafFaults
import ScopedStyle.Proofs.SelectorLookups
import ScopedStyle.Proofs.SpecReading

/-! When compiling fails, and for what. The base name is checked first, then the keys of the spec, and
only then are its entries compiled; each phase goes through the entries in their order and stops at the
first that it cannot accept. A number for the root class is used as soon as the first two phases are
passed. -/
namespace ScopedStyle

/-- Whether a value is accepted as a base name: it is a text, and not the empty one. -/
def Value.IsBaseName (value : Value) : Prop :=
  ∃ text, value.text? = some text ∧ text ≠ ""

/-- Whether a value is accepted as a spec: it is a mapping, and every key in it and in the scopes in it
is a text. -/
def Value.IsTextSpec (value : Value) : Prop :=
  ∃ spec, value.spec? = some spec ∧
    ∀ entry ∈ spec.placedEntries [], ∃ text, entry.key.text? = some text

/-- What an entry of a checked spec is refused for: a scope for a name that holds the separator, and a
leaf for having no declarations. -/
def Conventions.entryFault? (conventions : Conventions) (entry : PlacedEntry Key) : Option Fault :=
  match entry.value? with
  | none =>
    if occursIn conventions.separator.toList entry.key.text.toList then
      some (.spec (.separatorInName entry.key.text conventions.separator)
        entry.place)
    else none
  | some value =>
    match value.declarations conventions.unit entry.key.text with
    | .error fault => some fault
    | .ok _ => none

/-! ## The base name and the keys -/

theorem checkedBaseName_of_accepted {value : Value} (accepted : value.IsBaseName) :
    ∃ name, checkedBaseName value = .ok name := by
  obtain ⟨text, isText, proper⟩ := accepted
  exact ⟨text, by simp [checkedBaseName, isText, proper]⟩

theorem checkedBaseName_of_refused {value : Value} (refused : ¬ value.IsBaseName) :
    checkedBaseName value = .error (.spec (.badBaseName value) []) := by
  cases isText : value.text? with
  | none => simp only [checkedBaseName, isText]
  | some text =>
    have empty : text = "" := by
      by_contra proper
      exact refused ⟨text, isText, proper⟩
    simp [checkedBaseName, isText, empty]

private theorem no_bad_key_iff {entries : List (PlacedEntry Value)} :
    entries.find? (·.key.text?.isNone) = none ↔
      ∀ entry ∈ entries, ∃ text, entry.key.text? = some text := by
  simp [List.find?_eq_none, Option.ne_none_iff_exists']

/-- A value passes the check of its shape exactly if it is accepted as a spec. -/
theorem Value.isTextSpec_iff {given : Value} :
    given.IsTextSpec ↔ ∃ checked, given.snapshot [] = .ok checked := by
  constructor
  · rintro ⟨spec, read, keyed⟩
    obtain ⟨passed, _⟩ | ⟨entry, _, found, _⟩ := spec.snapshot_by_first_key []
    · rw [Value.snapshot_of_spec? read]
      exact passed
    · rw [List.map_nil, no_bad_key_iff.mpr keyed] at found
      cases found
  · rintro ⟨checked, passed⟩
    obtain ⟨spec, read, passed⟩ := Value.spec?_of_snapshot passed
    refine ⟨spec, read, no_bad_key_iff.mp ?_⟩
    obtain ⟨_, accepted⟩ | ⟨_, _, _, _, refused⟩ := spec.snapshot_by_first_key []
    · exact accepted
    · rw [refused] at passed
      cases passed

theorem Value.snapshot_of_not_mapping {given : Value} (single : given.spec? = none) :
    given.snapshot [] = .error (.spec (.notMapping given.kindName) []) := by
  rw [spec?, Option.map_eq_none_iff] at single
  simp only [snapshot, single]

/-- A mapping with a key that is no text is refused for the first such key. -/
theorem Value.snapshot_of_bad_key {given : Value} {spec : Spec Value} {entry : PlacedEntry Value}
    (read : given.spec? = some spec)
    (bad : (spec.placedEntries []).find? (·.key.text?.isNone) = some entry) :
    ∃ place, place.map Key.toValue = entry.path ∧
      given.snapshot [] = .error (.spec (.badKey entry.key) place) := by
  rw [snapshot_of_spec? read]
  obtain ⟨_, accepted⟩ | ⟨first, place, found, placed, refused⟩ := spec.snapshot_by_first_key []
  · cases accepted.symm.trans bad
  · cases found.symm.trans bad
    exact ⟨place, placed, refused⟩

namespace Conventions

variable {conventions : Conventions}

/-! ## Entries -/

/-- Entries are compiled if none of them is refused, and otherwise the first that is refused counts. -/
theorem compileEntries_by_first_fault (conventions : Conventions) (root : String) (path : List Key)
    (spec : Spec Key) :
    ((∃ entries, conventions.compileEntries root path spec = .ok entries) ∧
        (spec.placedEntries path).findSome? conventions.entryFault? = none) ∨
      ∃ fault, (spec.placedEntries path).findSome? conventions.entryFault? = some fault ∧
        conventions.compileEntries root path spec = .error fault := by
  induction spec generalizing path with
  | nil => exact .inl ⟨⟨_, rfl⟩, rfl⟩
  | leaf key value rest ih =>
    simp only [Spec.placedEntries, List.findSome?_cons, entryFault?, compileEntries]
    cases value.declarations conventions.unit key.text with
    | error fault => exact .inr ⟨fault, rfl, rfl⟩
    | ok own =>
      obtain ⟨⟨others, ran⟩, accepted⟩ | ⟨fault, first, failed⟩ := ih path
      · exact .inl ⟨⟨_, by rw [ran]; rfl⟩, accepted⟩
      · exact .inr ⟨fault, first, by rw [failed]; rfl⟩
  | scope key traits inner rest ihInner ih =>
    simp only [Spec.placedEntries, List.findSome?_cons, List.findSome?_append, entryFault?,
      compileEntries, checkVariantName]
    by_cases holds : occursIn conventions.separator.toList key.text.toList = true
    · simp only [holds, ↓reduceIte]
      exact .inr ⟨_, rfl, rfl⟩
    · simp only [holds, Bool.false_eq_true, ↓reduceIte]
      obtain ⟨⟨inside, ran⟩, accepted⟩ | ⟨fault, first, failed⟩ := ihInner (path ++ [key])
      · rw [ran, accepted]
        obtain ⟨⟨others, ran⟩, accepted⟩ | ⟨fault, first, failed⟩ := ih path
        · exact .inl ⟨⟨_, by rw [ran]; rfl⟩, accepted⟩
        · exact .inr ⟨fault, first, by rw [failed]; rfl⟩
      · rw [failed, first]
        exact .inr ⟨fault, rfl, rfl⟩

end Conventions

/-! ## Leaves -/

theorem Value.isScope_settled (value : Value) : value.settled.isScope = value.isScope := by
  cases held : value.content with
  | list items =>
    have tuple : value.settled = .tuple items := by simp only [settled, held]
    have alone : value.isScope = false := by simp [isScope, entries?, held]
    rw [tuple, alone]
    rfl
  | _ =>
    have same : value.settled = value := by simp only [settled, held]
    rw [same]

/-- No leaf of a checked spec is a scope of its own, if the spec that was checked was read from a
mapping. -/
theorem Spec.leaf_of_snapshot {spec : Spec Value} {path : List Key} {checked : Spec Key}
    (readable : spec.Readable) (passed : spec.snapshot path = .ok checked) (place : List Key) :
    ∀ entry ∈ checked.placedEntries place, ∀ value, entry.value? = some value →
      value.isScope = false := by
  obtain ⟨keyed, rfl⟩ := textKeyed_of_snapshot passed
  rw [snapshot_mapKeys] at passed
  cases passed
  induction keyed generalizing place with
  | nil => exact fun entry member => absurd member List.not_mem_nil
  | leaf key value rest ih =>
    refine List.forall_mem_cons.mpr ⟨fun held same => ?_, ih place readable.2⟩
    cases same
    rw [Value.isScope_settled]
    exact readable.1
  | scope key traits inner rest ihInner ih =>
    refine List.forall_mem_cons.mpr ⟨nofun, List.forall_mem_append.mpr ⟨?_, ?_⟩⟩
    · exact ihInner (place ++ [key]) readable.2.1
    · exact ih place readable.2.2

namespace Conventions

variable {conventions : Conventions} {source : NameSource} {given baseName : Value}

/-! ## Phases -/

section Phases

variable {snapshot : Except Fault (Spec Key)} {checked : Spec Key} {fault : Fault}

theorem compileChecked_of_bad_name (bad : ¬ baseName.IsBaseName) :
    conventions.compileChecked source (checkedInput baseName snapshot) =
      (.error (.spec (.badBaseName baseName) []), source) := by
  simp only [checkedInput, checkedBaseName_of_refused bad]
  rfl

/-- Behind a base name that is accepted, a spec that is refused is all that counts. -/
theorem compileChecked_of_refused (named : baseName.IsBaseName)
    (refused : snapshot = .error fault) :
    conventions.compileChecked source (checkedInput baseName snapshot) =
      (.error fault, source) := by
  obtain ⟨name, named⟩ := checkedBaseName_of_accepted named
  simp only [checkedInput, named, refused]
  rfl

/-- Input that passes its checks uses a number, and then it is decided by its entries. -/
theorem compileChecked_of_passed (named : baseName.IsBaseName) (passed : snapshot = .ok checked) :
    ∃ root name, conventions.compileChecked source (checkedInput baseName snapshot) =
      (conventions.compileSnapshot root name checked, ⟨source.next + 1⟩) := by
  obtain ⟨name, named⟩ := checkedBaseName_of_accepted named
  refine ⟨issuedName name source.next, name, ?_⟩
  simp only [checkedInput, named, passed]
  rfl

theorem compileSnapshot_by_first_fault (conventions : Conventions) (root name : String)
    (checked : Spec Key) :
    ((∃ style, conventions.compileSnapshot root name checked = .ok style) ∧
        (checked.placedEntries []).findSome? conventions.entryFault? = none) ∨
      ∃ fault, (checked.placedEntries []).findSome? conventions.entryFault? = some fault ∧
        conventions.compileSnapshot root name checked = .error fault := by
  obtain ⟨⟨entries, ran⟩, accepted⟩ | ⟨fault, first, failed⟩ :=
    conventions.compileEntries_by_first_fault root [] checked
  · exact .inl ⟨⟨_, compileSnapshot_eq_ok.mpr ⟨entries, ran, rfl⟩⟩, accepted⟩
  · exact .inr ⟨fault, first, bind_eq_error.mpr (.inl failed)⟩

/-- Behind a base name and a spec that are accepted, the first entry that is refused counts. -/
theorem compileChecked_error_iff (named : baseName.IsBaseName) (passed : snapshot = .ok checked) :
    (conventions.compileChecked source (checkedInput baseName snapshot)).1 = .error fault ↔
      (checked.placedEntries []).findSome? conventions.entryFault? = some fault := by
  obtain ⟨root, name, ran⟩ :=
    @compileChecked_of_passed conventions source baseName _ _ named passed
  rw [ran]
  obtain ⟨⟨style, made⟩, accepted⟩ | ⟨found, first, failed⟩ :=
    conventions.compileSnapshot_by_first_fault root name checked
  · simp [made, accepted]
  · simp [failed, first, eq_comm]

end Phases

/-- An entry is accepted if it is a scope whose name avoids the separator, or a leaf that has
declarations. -/
theorem entryFault?_eq_none {entry : PlacedEntry Key} :
    conventions.entryFault? entry = none ↔
      (entry.value? = none →
        occursIn conventions.separator.toList entry.key.text.toList = false) ∧
      ∀ value, entry.value? = some value →
        ∃ declared, value.declarations conventions.unit entry.key.text = .ok declared := by
  cases held : entry.value? with
  | none => simp [entryFault?, held]
  | some value =>
    cases ran : value.declarations conventions.unit entry.key.text <;> simp [entryFault?, held, ran]

/-- Compiling goes through all its phases if it gives a style. -/
theorem compile_ok_iff :
    (∃ style, (conventions.compile source given baseName).1 = .ok style) ↔
      baseName.IsBaseName ∧ ∃ checked, given.snapshot [] = .ok checked ∧
        (checked.placedEntries []).findSome? conventions.entryFault? = none := by
  constructor
  · rintro ⟨style, made⟩
    have named : baseName.IsBaseName := by
      by_contra bad
      rw [compile, compileChecked_of_bad_name bad] at made
      cases made
    obtain ⟨_, checked, _, passed, _⟩ := compile_eq_ok.mp made
    refine ⟨named, checked, passed, ?_⟩
    by_contra refused
    obtain ⟨fault, first⟩ := Option.ne_none_iff_exists'.mp refused
    rw [compile, (compileChecked_error_iff named passed).mpr first] at made
    cases made
  · rintro ⟨named, checked, passed, accepted⟩
    cases ran : (conventions.compile source given baseName).1 with
    | ok style => exact ⟨style, rfl⟩
    | error fault =>
      rw [(compileChecked_error_iff named passed).mp ran] at accepted
      cases accepted

theorem source_of_accepted (named : baseName.IsBaseName) (accepted : given.IsTextSpec) :
    (conventions.compile source given baseName).2 = ⟨source.next + 1⟩ := by
  obtain ⟨checked, passed⟩ := Value.isTextSpec_iff.mp accepted
  obtain ⟨root, name, ran⟩ :=
    @compileChecked_of_passed conventions source baseName _ _ named passed
  rw [compile, ran]

theorem source_of_refused (refused : ¬ (baseName.IsBaseName ∧ given.IsTextSpec)) :
    (conventions.compile source given baseName).2 = source := by
  by_cases named : baseName.IsBaseName
  · cases passed : given.snapshot [] with
    | error fault => rw [compile, compileChecked_of_refused named passed]
    | ok checked => exact absurd ⟨named, Value.isTextSpec_iff.mpr ⟨checked, passed⟩⟩ refused
  · rw [compile, compileChecked_of_bad_name named]

/-! ## What faults are about -/

/-- What compiling a spec under a base name can be refused for: the base name; a key that is no text,
with the path of its scope; a name that holds the separator, with its path; and a part of a leaf. Or the
conversion of a leaf, or of an item of it, fails with an error of its own. -/
inductive Refusal (conventions : Conventions) (spec : Spec Value) (baseName : Value) : Fault → Prop
  | baseName : conventions.Refusal spec baseName (.spec (.badBaseName baseName) [])
  | key (member : entry ∈ spec.placedEntries []) (noText : entry.key.text? = none)
      (placed : place.map Key.toValue = entry.path) :
      conventions.Refusal spec baseName (.spec (.badKey entry.key) place)
  | name (passed : spec.snapshot [] = .ok checked) (member : entry ∈ checked.placedEntries [])
      (variant : entry.value? = none) :
      conventions.Refusal spec baseName
        (.spec (.separatorInName entry.key.text conventions.separator) entry.place)
  | leaf (passed : spec.snapshot [] = .ok checked) (member : entry ∈ checked.placedEntries [])
      (held : entry.value? = some leaf) (within : leaf.HasPart part) :
      conventions.Refusal spec baseName (.value reason property part)
  | conversion (passed : spec.snapshot [] = .ok checked)
      (member : entry ∈ checked.placedEntries []) (held : entry.value? = some leaf)
      (raised : fault.RaisedBy (leaf :: leaf.items)) : conventions.Refusal spec baseName fault

private theorem refusal_of_entry {spec : Spec Value} {checked : Spec Key} {entry : PlacedEntry Key}
    {fault : Fault} (passed : spec.snapshot [] = .ok checked)
    (member : entry ∈ checked.placedEntries []) (refused : conventions.entryFault? entry = some fault) :
    conventions.Refusal spec baseName fault := by
  unfold entryFault? at refused
  split at refused
  · next variant =>
    split at refused
    · cases refused
      exact .name passed member variant
    · cases refused
  · next leaf held =>
    split at refused
    · next failed =>
      cases refused
      obtain ⟨_, rfl⟩ | ⟨_, _, part, rfl, _, within⟩ | raised := Value.fault_of_declarations failed
      · exact .leaf passed member held ⟨leaf, List.mem_cons_self, .inl rfl⟩
      · exact .leaf passed member held within
      · exact .conversion passed member held raised
    · cases refused

/-- A spec that is not compiled is refused for something that is the matter with it or its base name. -/
theorem refusal_of_compileSpec {spec : Spec Value} {fault : Fault}
    (failed : (conventions.compileSpec source spec baseName).1 = .error fault) :
    conventions.Refusal spec baseName fault := by
  by_cases named : baseName.IsBaseName
  · obtain ⟨⟨checked, passed⟩, _⟩ | ⟨entry, place, first, placed, refused⟩ :=
      spec.snapshot_by_first_key []
    · have first := (compileChecked_error_iff named passed).mp failed
      obtain ⟨entry, member, refused⟩ := List.exists_of_findSome?_eq_some first
      exact refusal_of_entry passed member refused
    · rw [compileSpec, compileChecked_of_refused named refused] at failed
      cases failed
      have noText := List.find?_some first
      exact .key (List.mem_of_find?_eq_some first) (Option.isNone_iff_eq_none.mp noText) placed
  · rw [compileSpec, compileChecked_of_bad_name named] at failed
    cases failed
    exact .baseName

/-- A leaf that is no scope is not refused as one, and no entry for a name that is looked up. -/
private theorem entryFault?_ne {entry : PlacedEntry Key} {fault : Fault}
    (leaf : ∀ value, entry.value? = some value → value.isScope = false)
    (refused : conventions.entryFault? entry = some fault) :
    (∀ property value, fault ≠ .value .variant property value) ∧
      ∀ name, fault ≠ .unknownPseudoClass name := by
  unfold entryFault? at refused
  split at refused
  · split at refused
    · cases refused
      exact ⟨by simp, by simp⟩
    · cases refused
  · next value held =>
    split at refused
    · next failed =>
      cases refused
      obtain ⟨scope, _⟩ | ⟨reason, _, _, rfl, proper, _⟩ | ⟨_, _, _, _, _, rfl⟩ :=
        Value.fault_of_declarations failed
      · rw [leaf value held] at scope
        cases scope
      · exact ⟨fun _ _ same => proper (by cases same; rfl), by simp⟩
      · exact ⟨by simp, by simp⟩
    · cases refused

/-- Since no leaf of a checked spec is a scope, none is refused as one. -/
private theorem fault_of_compile_ne {fault : Fault}
    (failed : (conventions.compile source given baseName).1 = .error fault) :
    (∀ property value, fault ≠ .value .variant property value) ∧
      ∀ name, fault ≠ .unknownPseudoClass name := by
  by_cases named : baseName.IsBaseName
  · cases passed : given.snapshot [] with
    | error refused =>
      rw [compile, compileChecked_of_refused named passed] at failed
      cases failed
      cases read : given.spec? with
      | none =>
        cases (Value.snapshot_of_not_mapping read).symm.trans passed
        exact ⟨by simp, by simp⟩
      | some spec =>
        rw [Value.snapshot_of_spec? read] at passed
        obtain ⟨⟨_, accepted⟩, _⟩ | ⟨_, _, _, _, first⟩ := spec.snapshot_by_first_key []
        · cases accepted.symm.trans passed
        · cases first.symm.trans passed
          exact ⟨by simp, by simp⟩
    | ok checked =>
      obtain ⟨spec, read, own⟩ := Value.spec?_of_snapshot passed
      have first := (compileChecked_error_iff named passed).mp failed
      obtain ⟨entry, member, refused⟩ := List.exists_of_findSome?_eq_some first
      have leaf := Spec.leaf_of_snapshot (Value.readable_of_spec? read) own [] entry member
      exact entryFault?_ne leaf refused
  · rw [compile, compileChecked_of_bad_name named] at failed
    cases failed
    exact ⟨by simp, by simp⟩

/-- **Compiling fails in its first phase that cannot be passed, for the first entry that cannot.** There
is a style exactly if the base name is a text and not empty, the spec is a mapping with texts for keys
at every depth, no name of a variant holds the separator, and every leaf as it is kept has declarations.
Otherwise the base name counts first; then the spec, of which the first key that is no text is reported
with the path of its scope; and then the first entry with a name that holds the separator or with a leaf
that has no declarations. A number is used exactly if the first two are accepted. No leaf is ever refused
as a scope, and all native selectors that are looked up are found. -/
theorem compile_reports_first_fault (conventions : Conventions) (source : NameSource)
    (given baseName : Value) :
    ((∃ style, (conventions.compile source given baseName).1 = .ok style) ↔
      baseName.IsBaseName ∧ given.IsTextSpec ∧ ∃ checked, given.snapshot [] = .ok checked ∧
        (∀ entry ∈ checked.placedEntries [], entry.value? = none →
          occursIn conventions.separator.toList entry.key.text.toList = false) ∧
        ∀ entry ∈ checked.placedEntries [], ∀ value, entry.value? = some value →
          ∃ declared, value.declarations conventions.unit entry.key.text = .ok declared) ∧
    (¬ baseName.IsBaseName → conventions.compile source given baseName =
      (.error (.spec (.badBaseName baseName) []), source)) ∧
    (baseName.IsBaseName → given.spec? = none → conventions.compile source given baseName =
      (.error (.spec (.notMapping given.kindName) []), source)) ∧
    (baseName.IsBaseName → ∀ spec entry, given.spec? = some spec →
      (spec.placedEntries []).find? (·.key.text?.isNone) = some entry →
      ∃ place, place.map Key.toValue = entry.path ∧ conventions.compile source given baseName =
        (.error (.spec (.badKey entry.key) place), source)) ∧
    (baseName.IsBaseName → ∀ checked, given.snapshot [] = .ok checked → ∀ fault,
      ((conventions.compile source given baseName).1 = .error fault ↔
        (checked.placedEntries []).findSome? conventions.entryFault? = some fault)) ∧
    (baseName.IsBaseName ∧ given.IsTextSpec →
      (conventions.compile source given baseName).2 = ⟨source.next + 1⟩) ∧
    (¬ (baseName.IsBaseName ∧ given.IsTextSpec) →
      (conventions.compile source given baseName).2 = source) ∧
    (∀ fault, (conventions.compile source given baseName).1 = .error fault →
      (∀ property value, fault ≠ .value .variant property value) ∧
        ∀ name, fault ≠ .unknownPseudoClass name) ∧
    ∀ root path,
      conventions.pseudoClasses.lookedUpSelectors conventions.separator root path =
        .ok (conventions.pseudoClasses.variantSelectors conventions.separator root path) := by
  refine ⟨?_, compileChecked_of_bad_name, ?_, ?_, ?_, ?_, source_of_refused,
    fun fault failed => fault_of_compile_ne failed,
    conventions.pseudoClasses.lookedUpSelectors_eq conventions.separator⟩
  · simp only [compile_ok_iff, List.findSome?_eq_none_iff, entryFault?_eq_none]
    constructor
    · rintro ⟨named, checked, passed, accepted⟩
      exact ⟨named, Value.isTextSpec_iff.mpr ⟨checked, passed⟩, checked, passed,
        fun entry member => (accepted entry member).1, fun entry member => (accepted entry member).2⟩
    · rintro ⟨named, _, checked, passed, names, leaves⟩
      exact ⟨named, checked, passed, fun entry member => ⟨names entry member, leaves entry member⟩⟩
  · intro named single
    exact compileChecked_of_refused named (Value.snapshot_of_not_mapping single)
  · intro named spec entry read bad
    obtain ⟨place, placed, refused⟩ := Value.snapshot_of_bad_key read bad
    exact ⟨place, placed, compileChecked_of_refused named refused⟩
  · intro named checked passed fault
    exact compileChecked_error_iff named passed
  · intro ⟨named, accepted⟩
    exact source_of_accepted named accepted

/-- A scope with a name that holds the separator and with a leaf that has no declarations in it, and
another such leaf behind it. -/
private def brokenSpec : Value :=
  .map [(.text "on", .map [(.text "width", .int 1), (.text "a--b", .map [(.text "color", .null)])]),
    (.text "margin", .bool true)]

private def brokenSnapshot : Spec Key :=
  .scope (.ofText "on") none
    (.leaf (.ofText "width") (.int 1)
      (.scope (.ofText "a--b") none (.leaf (.ofText "color") .null .nil) .nil))
    (.leaf (.ofText "margin") (.bool true) .nil)

/-- Of these it is the name that counts, and a number is used. -/
theorem compile_reports_first_fault_of_broken :
    (Conventions.compile {} .fresh brokenSpec (.text "box")).1 =
        .error (.spec (.separatorInName "a--b" "--") [.ofText "on", .ofText "a--b"]) ∧
      (Conventions.compile {} .fresh brokenSpec (.text "box")).2 = ⟨2⟩ := by
  have named : (Value.text "box").IsBaseName := ⟨"box", rfl, by decide⟩
  have passed : brokenSpec.snapshot [] = .ok brokenSnapshot := rfl
  have accepted : brokenSpec.IsTextSpec := Value.isTextSpec_iff.mpr ⟨_, passed⟩
  obtain ⟨_, _, _, _, counts, used, _⟩ :=
    compile_reports_first_fault {} .fresh brokenSpec (.text "box")
  have first : (brokenSnapshot.placedEntries []).findSome? (entryFault? {}) =
      some (.spec (.separatorInName "a--b" "--") [.ofText "on", .ofText "a--b"]) := by rfl
  exact ⟨(counts named _ passed _).mpr first, used ⟨named, accepted⟩⟩

end Conventions

end ScopedStyle
