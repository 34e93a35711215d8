import ScopedStyle.Proofs.MergeMonoid
import ScopedStyle.Proofs.ScopePlaces

/-! Places in mappings. A path of texts leads from a mapping through the scopes in it to the value at its
end, be that a leaf or a scope with whatever holds it. What stands at a path of a mapping is what the
spec that the mapping is has there, and the keys of the two are the same. -/
namespace ScopedStyle

namespace Value

/-- What a mapping has under a text. -/
def under? (value : Value) (text : String) : Option Value :=
  ((value.entries?.getD []).find? (·.1.text? == some text)).map (·.2)

/-- What stands at a path. A path goes on in a scope only, but it may begin at any mapping. -/
def at? (value : Value) : List String → Option Value
  | [] => some value
  | name :: further =>
    match value.under? name with
    | some found => if further.isEmpty || found.isScope then found.at? further else none
    | none => none

/-- The keys of a mapping, in their order. -/
def keys (value : Value) : List Value :=
  (value.entries?.getD []).map (·.1)

end Value

/-- Whether an entry is a scope. -/
def Entry.isScope {κ : Type} : Entry κ → Bool
  | .leaf _ => false
  | .scope _ => true

namespace Spec

/-! ## Specs as mappings -/

mutual

/-- The entries of a mapping are those of the spec that is read from it. -/
theorem toEntries_ofEntries : ∀ entries, (ofEntries entries).toEntries id = entries
  | [] => rfl
  | (key, value) :: rest => by
    rw [ofEntries, toEntries_ofEntry, toEntries_ofEntries rest]

private theorem toEntries_ofEntry (key : Value) (rest : Spec Value) :
    ∀ value, (ofEntry key value rest).toEntries id = (key, value) :: rest.toEntries id
  | .map entries => by
    rw [ofEntry, toEntries, toEntries_ofEntries entries]
    rfl
  | .derived traits (.map entries) => by
    rw [ofEntry]
    split
    · rfl
    · rw [toEntries, toEntries_ofEntries entries]
      rfl
  | .derived _ (.text _) | .derived _ (.int _) | .derived _ (.float _) | .derived _ (.bool _)
  | .derived _ .null | .derived _ (.list _) | .derived _ (.tuple _) | .derived _ (.type _ _)
  | .derived _ (.foreign _) | .derived _ (.object _) | .derived _ (.derived _ _)
  | .text _ | .int _ | .float _ | .bool _ | .null | .list _ | .tuple _ | .type _ _
  | .foreign _ | .object _ => rfl

end

theorem toEntries_mapKeys {κ : Type} (name : κ → Value) (spec : Spec κ) :
    (spec.mapKeys name).toEntries id = spec.toEntries name := by
  induction spec with
  | nil => rfl
  | leaf key value rest ih => simp [mapKeys, toEntries, ih]
  | scope key traits inner rest ihInner ih => simp [mapKeys, toEntries, ihInner, ih]

/-- A spec that tells scopes from leaves is read back from its mapping. -/
theorem reads_toValue {spec : Spec Key} (readable : (spec.mapKeys Key.toValue).Readable) :
    spec.toValue.Reads spec := by
  rw [Value.Reads, toValue, ← toEntries_mapKeys]
  exact spec?_toEntries readable

/-- The keys of a spec, in their order. -/
def keys {κ : Type} : Spec κ → List κ
  | .nil => []
  | .leaf key _ rest => key :: rest.keys
  | .scope key _ _ rest => key :: rest.keys

/-- What a spec has under a text, as a value. -/
def under? (text : String) : Spec Key → Option Value
  | .nil => none
  | .leaf key value rest => if key.text = text then some value else rest.under? text
  | .scope key traits inner rest =>
    if key.text = text then some (held traits (inner.toEntries Key.toValue))
    else rest.under? text

end Spec

namespace Value

variable {value : Value} {spec : Spec Key}

theorem entries?_of_reads (reads : value.Reads spec) :
    value.entries? = some (spec.toEntries Key.toValue) := by
  obtain ⟨entries, held, same⟩ := Option.map_eq_some_iff.mp reads
  rw [held, ← Spec.toEntries_mapKeys, ← same, Spec.toEntries_ofEntries]

theorem under?_of_reads (reads : value.Reads spec) (text : String) :
    value.under? text = spec.under? text := by
  rw [under?, entries?_of_reads reads, Option.getD_some]
  clear reads
  induction spec with
  | nil => rfl
  | leaf key held rest ih =>
    by_cases met : key.text = text <;>
      simp [Spec.toEntries, Spec.under?, met, ih]
  | scope key traits inner rest _ ih =>
    by_cases met : key.text = text <;>
      simp [Spec.toEntries, Spec.under?, met, ih]

theorem keys_of_reads (reads : value.Reads spec) : value.keys = spec.keys.map Key.toValue := by
  rw [keys, entries?_of_reads reads, Option.getD_some]
  clear reads
  induction spec with
  | nil => rfl
  | leaf key held rest ih => simp [Spec.toEntries, Spec.keys, ih]
  | scope key traits inner rest _ ih => simp [Spec.toEntries, Spec.keys, ih]

theorem readable_of_reads (reads : value.Reads spec) : (spec.mapKeys Key.toValue).Readable :=
  readable_of_spec? reads

end Value

namespace Spec

theorem isSome_under? (spec : Spec Key) (key : Key) :
    (spec.under? key.text).isSome = (spec.find? key).isSome := by
  induction spec with
  | nil => rfl
  | leaf first value rest ih =>
    by_cases met : first.text = key.text <;> simp [under?, find?, Key.beq_iff, met, ih]
  | scope first traits inner rest _ ih =>
    by_cases met : first.text = key.text <;> simp [under?, find?, Key.beq_iff, met, ih]

theorem under?_of_none {spec : Spec Key} {key : Key} (absent : spec.find? key = none) :
    spec.under? key.text = none := by
  simpa [absent] using isSome_under? spec key

/-- What holds a scope is a scope, and it is read back as the spec in it. -/
private theorem scope_of_held {traits : Option (Traits Value)} {inner : Spec Key}
    (plain : (held traits []).converts = false) (readable : (inner.mapKeys Key.toValue).Readable) :
    (held traits (inner.toEntries Key.toValue)).isScope = true ∧
      (held traits (inner.toEntries Key.toValue)).Reads inner := by
  have alone := (converts_held traits (inner.toEntries Key.toValue)).trans plain
  have read : (held traits (inner.toEntries Key.toValue)).spec? = inner.toValue.spec? := by
    cases traits <;> rfl
  constructor
  · rw [Value.isScope, alone]
    cases traits <;> rfl
  · rw [Value.Reads, read]
    exact reads_toValue readable

/-- Under a key a spec has nothing, a leaf, or a scope, and as a value this is nothing, no scope, or a
scope with what is in it. -/
theorem under?_cases {spec : Spec Key} (readable : (spec.mapKeys Key.toValue).Readable) (key : Key) :
    (spec.find? key = none ∧ spec.under? key.text = none) ∨
      (∃ value, spec.find? key = some (.leaf value) ∧ spec.under? key.text = some value ∧
        value.isScope = false) ∨
      ∃ inner value, spec.find? key = some (.scope inner) ∧
        spec.under? key.text = some value ∧ value.isScope = true ∧ value.Reads inner := by
  induction spec with
  | nil => exact .inl ⟨rfl, rfl⟩
  | leaf first held rest ih =>
    by_cases met : first.text = key.text
    · have same : (first == key) = true := Key.beq_iff.mpr met
      exact .inr (.inl ⟨held, by simp [find?, same], by simp [under?, met], readable.1⟩)
    · have other : ¬ (first == key) = true := fun same => met (Key.beq_iff.mp same)
      simpa [find?, under?, other, met] using ih readable.2
  | scope first traits inner rest _ ih =>
    by_cases met : first.text = key.text
    · have same : (first == key) = true := Key.beq_iff.mpr met
      obtain ⟨isScope, reads⟩ := scope_of_held readable.1 readable.2.1
      exact .inr (.inr ⟨inner, _, by simp [find?, same], by simp [under?, met], isScope, reads⟩)
    · have other : ¬ (first == key) = true := fun same => met (Key.beq_iff.mp same)
      simpa [find?, under?, other, met] using ih readable.2.2

theorem under?_of_leaf {spec : Spec Key} {key : Key} {value : Value}
    (readable : (spec.mapKeys Key.toValue).Readable) (found : spec.find? key = some (.leaf value)) :
    spec.under? key.text = some value ∧ value.isScope = false := by
  obtain ⟨absent, _⟩ | ⟨_, leaf, under, single⟩ | ⟨_, _, scope, _⟩ := under?_cases readable key
  · cases absent.symm.trans found
  · cases leaf.symm.trans found
    exact ⟨under, single⟩
  · cases scope.symm.trans found

theorem under?_of_scope {spec inner : Spec Key} {key : Key}
    (readable : (spec.mapKeys Key.toValue).Readable) (found : spec.find? key = some (.scope inner)) :
    ∃ value, spec.under? key.text = some value ∧ value.isScope = true ∧ value.Reads inner := by
  obtain ⟨absent, _⟩ | ⟨_, leaf, _⟩ | ⟨_, value, scope, under, nested, reads⟩ :=
    under?_cases readable key
  · cases absent.symm.trans found
  · cases leaf.symm.trans found
  · cases scope.symm.trans found
    exact ⟨value, under, nested, reads⟩

/-! ## Entries in their places -/

/-- What a path leads to behind an entry it leads to in the whole, if the entry has a key of its own. -/
private theorem entryAt?_rest {κ : Type} [BEq κ] [EquivBEq κ] {spec rest : Spec κ} {first key : κ}
    {further : List κ} {found : Entry κ} (once : rest.find? first = none)
    (passes : ¬ (first == key) = true → spec.find? key = rest.find? key)
    (leads : rest.entryAt? (key :: further) = some found) :
    spec.entryAt? (key :: further) = some found := by
  cases held : rest.find? key with
  | none => simp [entryAt?, held] at leads
  | some entry =>
    have passed := passes (not_met_of_find?_rest once held)
    simpa only [entryAt?, passed] using leads

/-- An entry that is met in a spec stands at its place. -/
theorem entryAt?_of_placed {κ : Type} [BEq κ] [EquivBEq κ] {spec : Spec κ}
    (distinct : spec.hasDistinctKeys = true) {path : List κ} {entry : PlacedEntry κ}
    (member : entry ∈ spec.placedEntries path) :
    ∃ key further, entry.place = path ++ key :: further ∧
      ∃ found, spec.entryAt? (key :: further) = some found ∧
        found.isScope = entry.value?.isNone := by
  induction spec generalizing path with
  | nil => cases member
  | leaf first value rest ih =>
    obtain ⟨once, others⟩ := hasDistinctKeys_leaf.mp distinct
    rcases List.mem_cons.mp member with rfl | later
    · exact ⟨first, [], rfl, .leaf value, by simp [entryAt?, find?], rfl⟩
    · obtain ⟨key, further, place, found, leads, shape⟩ := ih others later
      have behind : (leaf first value rest).entryAt? (key :: further) = some found :=
        entryAt?_rest once (fun other => by simp [find?, other]) leads
      exact ⟨key, further, place, found, behind, shape⟩
  | scope first traits inner rest ihInner ih =>
    obtain ⟨once, inside, others⟩ := hasDistinctKeys_scope.mp distinct
    rcases List.mem_cons.mp member with rfl | below
    · exact ⟨first, [], rfl, .scope inner, by simp [entryAt?, find?], rfl⟩
    · rcases List.mem_append.mp below with within | later
      · obtain ⟨key, further, place, found, leads, shape⟩ := ihInner inside within
        refine ⟨first, key :: further, by simpa using place, found, ?_, shape⟩
        simpa [entryAt?, find?] using leads
      · obtain ⟨key, further, place, found, leads, shape⟩ := ih others later
        have behind : (scope first traits inner rest).entryAt? (key :: further) = some found :=
          entryAt?_rest once (fun other => by simp [find?, other]) leads
        exact ⟨key, further, place, found, behind, shape⟩

end Spec

namespace Value

variable {value : Value} {spec : Spec Key}

/-- At a path that goes anywhere stands what the spec has there, a leaf for a leaf and a scope for a
scope. -/
theorem at?_of_reads (reads : value.Reads spec) (key : Key) (further : List Key) :
    (value.at? ((key :: further).map (·.text))).map isScope =
      (spec.entryAt? (key :: further)).map Entry.isScope := by
  induction further generalizing value spec key with
  | nil =>
    obtain ⟨absent, here⟩ | ⟨held, found, here, single⟩ | ⟨inner, held, found, here, scope, _⟩ :=
      Spec.under?_cases (readable_of_reads reads) key
    · simp [at?, under?_of_reads reads, Spec.entryAt?, absent, here]
    · simp [at?, under?_of_reads reads, Spec.entryAt?, found, here, single, Entry.isScope]
    · simp [at?, under?_of_reads reads, Spec.entryAt?, found, here, scope, Entry.isScope]
  | cons second further ih =>
    obtain ⟨absent, here⟩ | ⟨held, found, here, single⟩ | ⟨inner, held, found, here, scope, below⟩ :=
      Spec.under?_cases (readable_of_reads reads) key
    · simp [at?, under?_of_reads reads, Spec.entryAt?, absent, here]
    · simp [at?, under?_of_reads reads, Spec.entryAt?, found, here, single]
    · have deeper := ih below second
      simpa [at?, under?_of_reads reads, Spec.entryAt?, found, here, scope] using deeper

end Value

end ScopedStyle
