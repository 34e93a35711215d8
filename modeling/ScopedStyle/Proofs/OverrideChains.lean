import ScopedStyle.Override
import ScopedStyle.Proofs.RootNames
import ScopedStyle.Proofs.Snapshots
import ScopedStyle.Proofs.SpecReading

/-! Overriding in turn. A style that is overridden patch by patch is, but for its root class, what
compiling all the merged mappings at once gives, and also what overriding once with the merged patches
gives. Each override works on the checked spec of the style before, so this rests on merging onto a
checked spec being merging onto the spec that was checked, and on merging being associative. -/
namespace ScopedStyle

/-- Some mappings merged one after the other onto the first. -/
def Value.mergedInTurn (base : Value) (patches : List Value) : Except Fault Value :=
  patches.foldlM Value.merged base

/-- Some patches as one: the first with the others merged onto it, or the empty one. -/
def combinedPatch : List Value → Except Fault Value
  | [] => .ok (.map [])
  | first :: others => first.mergedInTurn others

namespace Conventions

/-- Overriding what has been made, patch by patch, for as long as every step gives a style. -/
def overrideInTurn (conventions : Conventions) :
    Except Fault Style × NameSource → List Value → Except Fault Style × NameSource
  | made, [] => made
  | (.error fault, source), _ :: _ => (.error fault, source)
  | (.ok style, source), patch :: others =>
    conventions.overrideInTurn (conventions.override source (.style style) patch .null) others

/-- Compiling what merging has come to, under a base name. -/
def compileMerged (conventions : Conventions) (source : NameSource) (merged : Except Fault Value)
    (baseName : Value) : Except Fault Style × NameSource :=
  match merged with
  | .ok spec => conventions.compile source spec baseName
  | .error fault => (.error fault, source)

/-! ## One step -/

/-- A style is made from a mapping, of which it holds the checked spec, and from the text of a base
name. -/
private theorem made_from {conventions : Conventions} {source : NameSource}
    {given baseName : Value} {style : Style}
    (compiled : (conventions.compile source given baseName).1 = .ok style) :
    checkedBaseName baseName = .ok style.baseName ∧
      ∃ spec, given.spec? = some spec ∧ spec.snapshot [] = .ok style.spec := by
  obtain ⟨named, passed⟩ := input_of_compileChecked compiled
  exact ⟨named, Value.spec?_of_snapshot passed⟩

/-- Checked input does not tell a base name from its text. -/
private theorem checkedInput_text {baseName : Value} {text : String}
    (named : checkedBaseName baseName = .ok text) (snapshot : Except Fault (Spec Key)) :
    checkedInput (.text text) snapshot = checkedInput baseName snapshot := by
  have again : checkedBaseName (.text text) = .ok text := by
    unfold checkedBaseName at named ⊢
    split at named
    · next characters _ =>
      split at named
      · cases named
      · cases named
        simp_all [Value.text?, Value.content]
    · cases named
  simp only [checkedInput, named, again]

private theorem override_style (conventions : Conventions) (source : NameSource) (style : Style)
    (patch : Value) :
    conventions.override source (.style style) patch .null =
      match mergedOnto [] (style.spec.mapKeys Key.toValue) patch with
      | .ok merged => conventions.compileSpec source merged (.text style.baseName)
      | .error fault => (.error fault, source) :=
  override_eq rfl rfl

/-- **Overriding a style is compiling the merge.** From any source of names a compiled style is
overridden with the result, be it a style or a fault, that merging the patch onto the mapping it was
compiled from and compiling what comes of it has. -/
theorem override_compiled {conventions : Conventions} {source : NameSource}
    {given baseName : Value} {style : Style}
    (compiled : (conventions.compile source given baseName).1 = .ok style) (patch : Value)
    (next : NameSource) :
    conventions.override next (.style style) patch .null =
      conventions.compileMerged next (given.merged patch) baseName := by
  obtain ⟨named, spec, read, passed⟩ := made_from compiled
  obtain ⟨entries, held, rfl⟩ := Option.map_eq_some_iff.mp read
  rw [override_style, Spec.mapKeys_of_snapshot passed]
  cases changed : patch.entries? with
  | none =>
    simp only [mergedOnto, changed, Value.merged, mergeValues, held]
    rfl
  | some changes =>
    have same := Spec.firstConflict?_settled (Spec.ofEntries entries) (.ofEntries changes)
    simp only [mergedOnto, changed, Value.merged, mergeValues, held, Spec.merge, same]
    cases (Spec.ofEntries entries).firstConflict? (.ofEntries changes) with
    | some conflict => rfl
    | none =>
      have readable := Spec.readable_patched (Spec.readable_ofEntries entries)
        (Spec.readable_ofEntries changes)
      have checked := Value.snapshot_of_spec? (Spec.spec?_toEntries readable) []
      simp only [Except.map, compileMerged, compile, compileSpec, checked,
        Spec.snapshot_patched_settled, checkedInput_text named]

end Conventions

/-! ## Merging values with text keys -/

/-- A value that is a spec in which every key is a text. -/
def Value.TextKeyed (value : Value) : Prop :=
  ∃ spec, value.spec? = some spec ∧ spec.TextKeyed

namespace Value

private theorem textKeyed_patch {base merged : Value} {patch : GivenValue}
    (ran : base.merged patch = .ok merged) (baseKeyed : base.TextKeyed) (keyed : merged.TextKeyed) :
    patch.value.TextKeyed := by
  obtain ⟨spec, changes, result, baseRead, patchRead, step, rfl⟩ := merged_eq_ok.mp ran
  obtain ⟨_, read, specKeyed⟩ := baseKeyed
  cases baseRead.symm.trans read
  obtain ⟨_, read, resultKeyed⟩ := keyed
  cases (spec?_of_merged baseRead patchRead step).symm.trans read
  obtain ⟨free, rfl⟩ := Spec.merge_eq_ok.mp step
  have distinct := patch.distinct
  simp only [hasDistinctKeys, patchRead] at distinct
  exact ⟨changes, patchRead, Spec.textKeyed_of_patched specKeyed free distinct resultKeyed⟩

private theorem textKeyed_merged {base patch merged : Value} (ran : base.merged patch = .ok merged)
    (baseKeyed : base.TextKeyed) (patchKeyed : patch.TextKeyed) : merged.TextKeyed := by
  obtain ⟨spec, changes, result, baseRead, patchRead, step, rfl⟩ := merged_eq_ok.mp ran
  obtain ⟨_, read, keyed⟩ := baseKeyed
  cases baseRead.symm.trans read
  obtain ⟨_, read, changesKeyed⟩ := patchKeyed
  cases patchRead.symm.trans read
  refine ⟨result, spec?_of_merged baseRead patchRead step, ?_⟩
  obtain ⟨_, rfl⟩ := Spec.merge_eq_ok.mp step
  exact Spec.textKeyed_patched keyed changesKeyed

private theorem merged_patches_first {base first second middle last : Value}
    (baseKeyed : base.TextKeyed) (firstKeyed : first.TextKeyed) (secondKeyed : second.TextKeyed)
    (step : base.merged first = .ok middle) (next : middle.merged second = .ok last) :
    ∃ patch, first.merged second = .ok patch ∧ base.merged patch = .ok last := by
  obtain ⟨spec, changes, result, baseRead, firstRead, ran, rfl⟩ := merged_eq_ok.mp step
  obtain ⟨_, further, final, middleRead, secondRead, again, rfl⟩ := merged_eq_ok.mp next
  cases (spec?_of_merged baseRead firstRead ran).symm.trans middleRead
  obtain ⟨_, read, specKeyed⟩ := baseKeyed
  cases baseRead.symm.trans read
  obtain ⟨_, read, changesKeyed⟩ := firstKeyed
  cases firstRead.symm.trans read
  obtain ⟨_, read, furtherKeyed⟩ := secondKeyed
  cases secondRead.symm.trans read
  obtain ⟨patch, together, atOnce⟩ :=
    Spec.merge_patches_first_of_textKeyed specKeyed changesKeyed furtherKeyed ran again
  refine ⟨.map (patch.toEntries id), merged_eq_ok.mpr ?_, merged_eq_ok.mpr ?_⟩
  · exact ⟨changes, further, patch, firstRead, secondRead, together, rfl⟩
  · exact ⟨spec, patch, final, baseRead, spec?_of_merged firstRead secondRead together, atOnce, rfl⟩

/-- Mappings that can be merged one after the other onto a base can be merged with each other first,
and their merge then gives the same on the base. -/
private theorem mergedInTurn_first {base first middle last : Value} {others : List Value}
    (baseKeyed : base.TextKeyed) (firstKeyed : first.TextKeyed)
    (keyed : ∀ patch ∈ others, patch.TextKeyed) (step : base.merged first = .ok middle)
    (further : middle.mergedInTurn others = .ok last) :
    ∃ patch, first.mergedInTurn others = .ok patch ∧ base.merged patch = .ok last := by
  induction others generalizing first middle with
  | nil =>
    cases further
    exact ⟨first, rfl, step⟩
  | cons second others ih =>
    -- The second patch goes into the first, and the others are merged onto both.
    obtain ⟨next, merged, further⟩ := bind_eq_ok.mp further
    have secondKeyed := keyed second (by simp)
    obtain ⟨patch, together, atOnce⟩ :=
      merged_patches_first baseKeyed firstKeyed secondKeyed step merged
    obtain ⟨whole, combined, same⟩ :=
      ih (textKeyed_merged together firstKeyed secondKeyed)
        (fun later member => keyed later (by simp [member])) atOnce further
    exact ⟨whole, bind_eq_ok.mpr ⟨patch, together, combined⟩, same⟩

end Value

/-! ## Chains of overrides -/

namespace Conventions

private theorem textKeyed_of_compiled {conventions : Conventions} {source : NameSource}
    {given baseName : Value} {style : Style}
    (compiled : (conventions.compile source given baseName).1 = .ok style) : given.TextKeyed := by
  obtain ⟨_, spec, read, passed⟩ := made_from compiled
  exact ⟨spec, read, Spec.textKeyed_of_snapshot passed⟩

private theorem overrideInTurn_fault (conventions : Conventions) (fault : Fault)
    (source : NameSource) (patches : List Value) :
    conventions.overrideInTurn (.error fault, source) patches = (.error fault, source) := by
  cases patches <;> rfl

/-- One step of a chain that succeeds: the patch can be merged, and the chain goes on from the style
that compiling the merge gives. -/
private theorem overrideInTurn_step {conventions : Conventions} {source next : NameSource}
    {given baseName patch : Value} {others : List Value} {first last : Style}
    (compiled : (conventions.compile source given baseName).1 = .ok first)
    (chain : (conventions.overrideInTurn (.ok first, next) (patch :: others)).1 = .ok last) :
    ∃ merged style further, given.merged patch = .ok merged ∧
      (conventions.compile next merged baseName).1 = .ok style ∧
      (conventions.overrideInTurn (.ok style, further) others).1 = .ok last := by
  rw [overrideInTurn, override_compiled compiled patch next] at chain
  cases merged : given.merged patch with
  | error fault =>
    rw [merged, compileMerged, overrideInTurn_fault] at chain
    cases chain
  | ok step =>
    rw [merged, compileMerged] at chain
    cases made : conventions.compile next step baseName with
    | mk result further =>
      rw [made] at chain
      cases result with
      | error fault =>
        rw [overrideInTurn_fault] at chain
        cases chain
      | ok style => exact ⟨step, style, further, rfl, congrArg Prod.fst made, chain⟩

/-- What overriding in turn makes is what compiling all the merged mappings makes, and no patch that
has a part in it has a key that is no text. -/
private theorem overrideInTurn_compiled {conventions : Conventions} {source next : NameSource}
    {given baseName : Value} {first last : Style} {patches : List GivenValue}
    (compiled : (conventions.compile source given baseName).1 = .ok first)
    (chain : (conventions.overrideInTurn (.ok first, next) (patches.map (·.value))).1 = .ok last) :
    ∃ merged final, given.mergedInTurn (patches.map (·.value)) = .ok merged ∧
      (conventions.compile final merged baseName).1 = .ok last ∧
      ∀ patch ∈ patches, patch.value.TextKeyed := by
  induction patches generalizing source next given first with
  | nil =>
    cases chain
    exact ⟨given, source, rfl, compiled, by simp⟩
  | cons patch others ih =>
    obtain ⟨step, style, further, merged, made, chain⟩ := overrideInTurn_step compiled chain
    obtain ⟨whole, final, inTurn, last, keyed⟩ := ih made chain
    have patchKeyed := Value.textKeyed_patch merged (textKeyed_of_compiled compiled)
      (textKeyed_of_compiled made)
    exact ⟨whole, final, bind_eq_ok.mpr ⟨step, merged, inTurn⟩, last,
      List.forall_mem_cons.mpr ⟨patchKeyed, keyed⟩⟩

/-- The empty patch is merged onto every mapping, and what comes of it compiles like the mapping. -/
private theorem compile_merged_empty {given merged : Value} (ran : given.merged (.map []) = .ok merged)
    (conventions : Conventions) (source : NameSource) (baseName : Value) :
    conventions.compile source merged baseName = conventions.compile source given baseName := by
  obtain ⟨spec, changes, result, baseRead, patchRead, step, rfl⟩ := Value.merged_eq_ok.mp ran
  have emptyRead : (Value.map []).spec? = some .nil := rfl
  cases emptyRead.symm.trans patchRead
  have read := Value.spec?_of_merged baseRead emptyRead step
  rw [Spec.merge_nil] at step
  cases step
  simp only [compile, Value.snapshot_of_spec? read, Value.snapshot_of_spec? baseRead]

/-- The patches of a chain can be combined, and the combined patch makes what the chain makes. -/
private theorem combined_compiled {conventions : Conventions} {source next : NameSource}
    {given baseName : Value} {first last : Style} {patches : List GivenValue}
    (compiled : (conventions.compile source given baseName).1 = .ok first)
    (chain : (conventions.overrideInTurn (.ok first, next) (patches.map (·.value))).1 = .ok last) :
    ∃ patch merged final, combinedPatch (patches.map (·.value)) = .ok patch ∧ given.merged patch = .ok merged ∧
      (conventions.compile final merged baseName).1 = .ok last := by
  have givenKeyed := textKeyed_of_compiled compiled
  obtain ⟨merged, final, inTurn, made, keyed⟩ := overrideInTurn_compiled compiled chain
  cases patches with
  | nil =>
    cases inTurn
    obtain ⟨spec, read, _⟩ := givenKeyed
    have emptyRead : (Value.map []).spec? = some .nil := rfl
    have ran := Value.merged_eq_ok.mpr ⟨spec, .nil, spec, read, emptyRead, Spec.merge_nil spec, rfl⟩
    refine ⟨.map [], _, final, rfl, ran, ?_⟩
    rw [compile_merged_empty ran]
    exact made
  | cons patch others =>
    obtain ⟨step, ran, further⟩ := bind_eq_ok.mp inTurn
    obtain ⟨patchKeyed, keyed⟩ := List.forall_mem_cons.mp keyed
    obtain ⟨whole, combined, atOnce⟩ := Value.mergedInTurn_first givenKeyed patchKeyed
      (List.forall_mem_map.mpr keyed) ran further
    exact ⟨whole, merged, final, combined, atOnce, made⟩

private theorem compiled_first {conventions : Conventions} {source : NameSource}
    {given baseName : Value} {patches : List Value} {last : Style}
    (chain : (conventions.overrideInTurn (conventions.compile source given baseName) patches).1 =
      .ok last) :
    ∃ first next, conventions.compile source given baseName = (.ok first, next) := by
  cases made : conventions.compile source given baseName with
  | mk result next =>
    cases result with
    | ok first => exact ⟨first, next, rfl⟩
    | error fault =>
      rw [made, overrideInTurn_fault] at chain
      cases chain

/-- A chain that succeeds gives what compiling the mapping with all the patches merged onto it gives,
from whatever source the name comes. -/
private theorem chain_agrees_with_merged {conventions : Conventions} {source next : NameSource}
    {given baseName : Value} {patches : List GivenValue} {first last : Style}
    (compiled : (conventions.compile source given baseName).1 = .ok first)
    (chain : (conventions.overrideInTurn (.ok first, next) (patches.map (·.value))).1 = .ok last) :
    ∃ merged, given.mergedInTurn (patches.map (·.value)) = .ok merged ∧
      ∀ source, ∃ twin, (conventions.compile source merged baseName).1 = .ok twin ∧
        last.AgreesWith twin := by
  obtain ⟨merged, final, inTurn, made, _⟩ := overrideInTurn_compiled compiled chain
  exact ⟨merged, inTurn, fun source => compileChecked_agrees made source⟩

/-- And it gives what a single override with the combined patch gives. -/
private theorem chain_agrees_with_combined {conventions : Conventions} {source next : NameSource}
    {given baseName : Value} {patches : List GivenValue} {first last : Style}
    (compiled : (conventions.compile source given baseName).1 = .ok first)
    (chain : (conventions.overrideInTurn (.ok first, next) (patches.map (·.value))).1 = .ok last) :
    ∃ patch, combinedPatch (patches.map (·.value)) = .ok patch ∧
      ∀ source, ∃ twin,
        (conventions.overrideInTurn (conventions.compile source given baseName) [patch]).1 =
          .ok twin ∧ last.AgreesWith twin := by
  obtain ⟨patch, whole, final, combined, atOnce, remade⟩ := combined_compiled compiled chain
  refine ⟨patch, combined, fun source => ?_⟩
  obtain ⟨again, alike, _⟩ := compileChecked_agrees compiled source
  obtain ⟨twin, overridden, agrees⟩ :=
    compileChecked_agrees remade (conventions.compile source given baseName).2
  refine ⟨twin, ?_, agrees⟩
  have pair : conventions.compile source given baseName =
      (.ok again, (conventions.compile source given baseName).2) := Prod.ext alike rfl
  rw [pair, overrideInTurn, overrideInTurn, override_compiled alike, atOnce]
  exact overridden

/-- An override of a compiled mapping fails where compiling the merge does, and with the same fault. -/
private theorem override_fails_alike {conventions : Conventions} {source : NameSource}
    {given baseName : Value} {style : Style}
    (compiled : (conventions.compile source given baseName).1 = .ok style) (patch : Value)
    (next other : NameSource) (fault : Fault) :
    (conventions.override next (.style style) patch .null).1 = .error fault ↔
      (conventions.compileMerged other (given.merged patch) baseName).1 = .error fault := by
  rw [override_compiled compiled]
  cases given.merged patch with
  | error refused => exact Iff.rfl
  | ok merged =>
    constructor
    · intro failed
      exact compileChecked_fault failed other
    · intro failed
      exact compileChecked_fault failed next

/-- **Overriding in turn, merging first and overriding once agree.** If compiling a mapping and then
overriding it with some patches in turn gives a style, then so do compiling the mapping with all the
patches merged onto it and overriding its style once with the patches merged into one, from whatever
sources the names come; and the three styles differ in their root classes only. Moreover a single
override of the compiled mapping fails where merging the patch onto the mapping and compiling fails,
with the same fault. -/
theorem override_chain_fuses (conventions : Conventions) (given baseName : Value)
    (patches : List GivenValue) :
    (∀ source style,
      (conventions.overrideInTurn (conventions.compile source given baseName)
        (patches.map (·.value))).1 = .ok style →
      (∃ merged, given.mergedInTurn (patches.map (·.value)) = .ok merged ∧
        ∀ source, ∃ twin, (conventions.compile source merged baseName).1 = .ok twin ∧
          style.AgreesWith twin) ∧
      ∃ patch, combinedPatch (patches.map (·.value)) = .ok patch ∧
        ∀ source, ∃ twin,
          (conventions.overrideInTurn (conventions.compile source given baseName) [patch]).1 =
            .ok twin ∧ style.AgreesWith twin) ∧
    ∀ source style, (conventions.compile source given baseName).1 = .ok style →
      ∀ patch next other fault,
        (conventions.override next (.style style) patch .null).1 = .error fault ↔
          (conventions.compileMerged other (given.merged patch) baseName).1 = .error fault := by
  constructor
  · intro source style chain
    obtain ⟨first, next, start⟩ := compiled_first chain
    rw [start] at chain
    have compiled := congrArg Prod.fst start
    exact ⟨chain_agrees_with_merged compiled chain, chain_agrees_with_combined compiled chain⟩
  · intro source style compiled
    exact override_fails_alike compiled

private def boxSpec : Value :=
  .map [(.text "color", .text "red"), (.text "on", .map [(.text "width", .int 1)])]

/-- An array in the place of a value, and in a scope a value with a scope of its own after it. -/
private def boxPatches : List GivenValue :=
  [⟨.map [(.text "color", .list [.text "blue", .int 2])], by decide⟩,
    ⟨.map [(.text "on", .map [(.text "height", .int 2), (.text "hover", .map [])])], by decide⟩]

theorem override_chain_fuses_of_two :
    ∃ style merged patch,
      (Conventions.overrideInTurn {} (Conventions.compile {} .fresh boxSpec (.text "box"))
        (boxPatches.map (·.value))).1 = .ok style ∧
      boxSpec.mergedInTurn (boxPatches.map (·.value)) = .ok merged ∧
      combinedPatch (boxPatches.map (·.value)) = .ok patch ∧
      (∃ twin, (Conventions.compile {} .fresh merged (.text "box")).1 = .ok twin ∧
        style.AgreesWith twin) ∧
      ∃ twin, (Conventions.overrideInTurn {} (Conventions.compile {} .fresh boxSpec (.text "box"))
        [patch]).1 = .ok twin ∧ style.AgreesWith twin := by
  have runs : (Conventions.overrideInTurn {} (Conventions.compile {} .fresh boxSpec (.text "box"))
    (boxPatches.map (·.value))).1.isOk = true := by decide +kernel
  obtain ⟨style, made⟩ := exists_of_isOk runs
  have fuses := (override_chain_fuses {} boxSpec (.text "box") boxPatches).1
  obtain ⟨⟨merged, inTurn, compiled⟩, patch, combined, overridden⟩ := fuses .fresh style made
  exact ⟨style, merged, patch, made, inTurn, combined, compiled .fresh, overridden .fresh⟩

end Conventions

end ScopedStyle
