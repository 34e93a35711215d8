import ScopedStyle.Proofs.MergeAlgebra

/-! Reading specs from values. What is read from a mapping has no scope for a leaf, and merging keeps
it so; a spec of that kind is read back from the mapping that it makes up. Merging mappings is
therefore merging the specs that are read from them. -/
namespace ScopedStyle

/-- A spec as it is read from a mapping: a value that is a scope of its own is never a leaf, and an
object that converts never holds a scope. -/
def Spec.Readable : Spec Value → Prop
  | .nil => True
  | .leaf _ value rest => value.isScope = false ∧ rest.Readable
  | .scope _ traits inner rest =>
    (held traits []).converts = false ∧ inner.Readable ∧ rest.Readable

/-- What a spec as it is read can have under a key. -/
def Entry.Readable : Entry Value → Prop
  | .leaf value => value.isScope = false
  | .scope inner => inner.Readable

namespace Spec

/-- Whether an object converts does not depend on what it holds. -/
theorem converts_held (traits : Option (Traits Value)) (entries : List (Value × Value)) :
    (held traits entries).converts = (held traits []).converts := by
  cases traits <;> rfl

theorem ofEntry_of_not_scope {value : Value} (single : value.isScope = false) (key : Value)
    (rest : Spec Value) : ofEntry key value rest = .leaf key value rest := by
  cases value with
  | map entries => simp [Value.isScope, Value.entries?, Value.content, Value.converts,
      Value.conversion, Value.traits?] at single
  | derived traits content =>
    cases content with
    | map entries =>
      have converts : (Value.derived traits (.map entries)).converts = true := by
        simpa [Value.isScope, Value.entries?, Value.content] using single
      simp [ofEntry, converts]
    | _ => rfl
  | _ => rfl

theorem ofEntry_held {traits : Option (Traits Value)} (plain : (held traits []).converts = false)
    (key : Value) (entries : List (Value × Value)) (rest : Spec Value) :
    ofEntry key (held traits entries) rest = .scope key traits (ofEntries entries) rest := by
  cases traits with
  | none => rfl
  | some traits =>
    have converts := (converts_held (some traits) entries).trans plain
    simp only [held] at converts ⊢
    simp [ofEntry, converts]

mutual

/-- Reading a mapping tells scopes from leaves at every depth. -/
theorem readable_ofEntries : ∀ entries, (ofEntries entries).Readable
  | [] => trivial
  | (key, value) :: rest => readable_ofEntry key value (readable_ofEntries rest)

private theorem readable_ofEntry (key : Value) {rest : Spec Value} :
    ∀ value, rest.Readable → (ofEntry key value rest).Readable
  | .map entries, readable => ⟨rfl, readable_ofEntries entries, readable⟩
  | .derived traits (.map entries), readable => by
    by_cases converts : (Value.derived traits (.map entries)).converts = true
    · rw [ofEntry_of_not_scope (by simp [Value.isScope, converts])]
      exact ⟨by simp [Value.isScope, converts], readable⟩
    · have plain : (held (some traits) []).converts = false :=
        (converts_held (some traits) entries).symm.trans (Bool.eq_false_iff.mpr converts)
      have read := ofEntry_held plain key entries rest
      simp only [held] at read
      rw [read]
      exact ⟨plain, readable_ofEntries entries, readable⟩
  | .derived _ (.text _), readable | .derived _ (.int _), readable
  | .derived _ (.float _), readable | .derived _ (.bool _), readable | .derived _ .null, readable
  | .derived _ (.list _), readable | .derived _ (.tuple _), readable
  | .derived _ (.type _ _), readable | .derived _ (.foreign _), readable
  | .derived _ (.object _), readable | .derived _ (.derived _ _), readable
  | .text _, readable | .int _, readable | .float _, readable | .bool _, readable
  | .null, readable | .list _, readable | .tuple _, readable | .type _ _, readable
  | .foreign _, readable | .object _, readable => ⟨rfl, readable⟩

end

/-- A spec is read back from the mapping that it makes up. -/
theorem ofEntries_toEntries {spec : Spec Value} (readable : spec.Readable) :
    ofEntries (spec.toEntries id) = spec := by
  induction spec with
  | nil => rfl
  | leaf key value rest ih =>
    simp only [toEntries, ofEntries, id_eq, ih readable.2, ofEntry_of_not_scope readable.1]
  | scope key traits inner rest ihInner ih =>
    obtain ⟨plain, inside, others⟩ := readable
    simp only [toEntries, ofEntries, id_eq, ih others, ofEntry_held plain, ihInner inside]

theorem spec?_toEntries {spec : Spec Value} (readable : spec.Readable) :
    (Value.map (spec.toEntries id)).spec? = some spec :=
  congrArg some (ofEntries_toEntries readable)

/-! ## Merging -/

theorem readable_append {first second : Spec Value} (readable : first.Readable)
    (more : second.Readable) : (first.append second).Readable := by
  induction first with
  | nil => exact more
  | leaf key value rest ih => exact ⟨readable.1, ih readable.2⟩
  | scope key traits inner rest _ ih => exact ⟨readable.1, readable.2.1, ih readable.2.2⟩

theorem readable_of_find? {spec : Spec Value} {key : Value} {entry : Entry Value}
    (readable : spec.Readable) (found : spec.find? key = some entry) : entry.Readable := by
  induction spec with
  | nil => simp [find?] at found
  | leaf first value rest ih =>
    by_cases met : (first == key) = true
    · simp only [find?, met, ↓reduceIte, Option.some.injEq] at found
      exact found ▸ readable.1
    · exact ih readable.2 (by simpa [find?, met] using found)
  | scope first traits inner rest _ ih =>
    by_cases met : (first == key) = true
    · simp only [find?, met, ↓reduceIte, Option.some.injEq] at found
      exact found ▸ readable.2.1
    · exact ih readable.2.2 (by simpa [find?, met] using found)

theorem readable_beyond (base : Spec Value) {patch : Spec Value} (readable : patch.Readable) :
    (base.beyond patch).Readable := by
  induction patch with
  | nil => trivial
  | leaf key value rest ih =>
    simp only [beyond]
    split
    · exact ih readable.2
    · exact ⟨readable.1, ih readable.2⟩
  | scope key traits inner rest _ ih =>
    simp only [beyond]
    split
    · exact ih readable.2.2
    · exact ⟨readable.1, readable.2.1, ih readable.2.2⟩

theorem readable_overlaid {base patch : Spec Value} (readable : base.Readable)
    (given : patch.Readable) : (base.overlaid patch).Readable := by
  induction base generalizing patch with
  | nil => trivial
  | leaf key value rest ih =>
    simp only [overlaid]
    split
    · next found => exact ⟨readable_of_find? given found, ih readable.2 given⟩
    · exact ⟨readable.1, ih readable.2 given⟩
  | scope key traits inner rest ihInner ih =>
    simp only [overlaid]
    split
    · next found =>
      have changes := readable_of_find? given found
      exact ⟨rfl, readable_append (ihInner readable.2.1 changes) (readable_beyond inner changes),
        ih readable.2.2 given⟩
    · exact ⟨readable.1, readable.2.1, ih readable.2.2 given⟩

theorem readable_patched {base patch : Spec Value} (readable : base.Readable)
    (given : patch.Readable) : (base.patched patch).Readable :=
  readable_append (readable_overlaid readable given) (readable_beyond base given)

end Spec

/-- A patch is merged onto a spec as the spec that it is. -/
theorem mergedOnto_eq_ok {path : List Key} {base merged : Spec Value} {patch : Value} :
    mergedOnto path base patch = .ok merged ↔
      ∃ changes, patch.spec? = some changes ∧ base.merge changes = .ok merged := by
  unfold mergedOnto Value.spec?
  cases patch.entries? with
  | none => simp
  | some entries => cases ran : base.merge (.ofEntries entries) <;> simp [ran]

namespace Value

theorem readable_of_spec? {value : Value} {spec : Spec Value} (read : value.spec? = some spec) :
    spec.Readable := by
  obtain ⟨entries, _, rfl⟩ := Option.map_eq_some_iff.mp read
  exact Spec.readable_ofEntries entries

/-- Merging two values is merging the specs that they are, written as a mapping again. -/
theorem merged_eq_ok {base patch value : Value} :
    base.merged patch = .ok value ↔
      ∃ spec changes merged, base.spec? = some spec ∧ patch.spec? = some changes ∧
        spec.merge changes = .ok merged ∧ .map (merged.toEntries id) = value := by
  cases inBase : base.entries? with
  | none => simp [Value.merged, mergeValues, spec?, inBase, Except.map]
  | some entries =>
    cases inPatch : patch.entries? with
    | none => simp [Value.merged, mergeValues, mergedOnto, spec?, inBase, inPatch, Except.map]
    | some others =>
      cases ran : (Spec.ofEntries entries).merge (.ofEntries others) <;>
        simp [Value.merged, mergeValues, mergedOnto, spec?, inBase, inPatch, ran, Except.map]

/-- What merging comes to is read back as the merged spec. -/
theorem spec?_of_merged {base patch : Value} {spec changes merged : Spec Value}
    (baseRead : base.spec? = some spec) (patchRead : patch.spec? = some changes)
    (ran : spec.merge changes = .ok merged) :
    (Value.map (merged.toEntries id)).spec? = some merged := by
  obtain ⟨_, rfl⟩ := Spec.merge_eq_ok.mp ran
  exact Spec.spec?_toEntries
    (Spec.readable_patched (readable_of_spec? baseRead) (readable_of_spec? patchRead))

end Value

end ScopedStyle
