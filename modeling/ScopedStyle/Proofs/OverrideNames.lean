import ScopedStyle.Proofs.CompileFaults
import ScopedStyle.Proofs.MappingPlaces

/-! Overriding a style and overriding its spec. A style lends its own base name not only where none is
given, but wherever what is given counts as false; a spec has no name to lend. So once the merge succeeds,
an override of a style accepts the empty text, zero and the like, which are no base names, and an override
of its spec refuses them. With every other name, and where the merge fails, the two come to the same. -/
namespace ScopedStyle

/-- A style that some compilers have made: by compiling a value, or by overriding a value or a style
that has been made. -/
inductive Style.IsMade : Style → Prop
  | compiled (ran : (Conventions.compile conventions source given chosen).1 = .ok style) :
      IsMade style
  | overridden
      (ran : (Conventions.override conventions source (.spec given) patch chosen).1 = .ok style) :
      IsMade style
  | restyled (made : IsMade base)
      (ran : (Conventions.override conventions source (.style base) patch chosen).1 = .ok style) :
      IsMade style

/-! ## Base names -/

theorem text_of_checkedBaseName {value : Value} {name : String}
    (named : checkedBaseName value = .ok name) : value.text? = some name ∧ name ≠ "" := by
  unfold checkedBaseName at named
  split at named
  · next text isText =>
    split at named
    · cases named
    · next proper =>
      cases named
      exact ⟨isText, by simpa using proper⟩
  · cases named

/-- What counts as false is no base name. -/
theorem Value.isTrue_of_isBaseName {value : Value} (accepted : value.IsBaseName) :
    value.isTrue = true := by
  obtain ⟨text, isText, proper⟩ := accepted
  unfold text? at isText
  split at isText
  · next characters held =>
    cases isText
    simp [isTrue, held, proper]
  · cases isText

/-! ## Specs of styles -/

namespace Spec

theorem readable_settled {spec : Spec Value} (readable : spec.Readable) :
    spec.settled.Readable := by
  induction spec with
  | nil => trivial
  | leaf key value rest ih =>
    exact ⟨(Value.isScope_settled value).trans readable.1, ih readable.2⟩
  | scope key traits inner rest ihInner ih =>
    exact ⟨rfl, ihInner readable.2.1, ih readable.2.2⟩

theorem readable_of_snapshot {spec : Spec Value} {path : List Key} {checked : Spec Key}
    (readable : spec.Readable) (passed : spec.snapshot path = .ok checked) :
    (checked.mapKeys Key.toValue).Readable := by
  rw [mapKeys_of_snapshot passed]
  exact readable_settled readable

theorem ne_badBaseName_of_snapshot {spec : Spec Value} {fault : Fault} {name : Value}
    (refused : spec.snapshot [] = .error fault) : fault ≠ .spec (.badBaseName name) [] := by
  obtain ⟨⟨_, passed⟩, _⟩ | ⟨_, _, _, _, first⟩ := spec.snapshot_by_first_key []
  · cases refused.symm.trans passed
  · cases refused.symm.trans first
    exact nofun

end Spec

namespace Conventions

variable {conventions : Conventions} {source : NameSource} {base : OverrideBase}
  {patch baseName : Value} {style : Style}

/-- An override that gives a style has merged the patch and compiled what came of it. -/
theorem override_eq_ok (ran : (conventions.override source base patch baseName).1 = .ok style) :
    ∃ spec name merged, base.spec? = .ok spec ∧ base.chosenName baseName = .ok name ∧
      mergedOnto [] spec patch = .ok merged ∧
      (conventions.compileSpec source merged name).1 = .ok style := by
  unfold override at ran
  split at ran
  · cases ran
  · next result name merging =>
    obtain ⟨spec, held, merging⟩ := bind_eq_ok.mp merging
    obtain ⟨chosen, named, merging⟩ := bind_eq_ok.mp merging
    obtain ⟨merged, step, same⟩ := bind_eq_ok.mp merging
    cases same
    exact ⟨spec, name, result, held, named, step, ran⟩

/-- Overriding what tells scopes from leaves gives a style whose spec does so, too. -/
theorem readable_of_override (readable : ∀ spec, base.spec? = .ok spec → spec.Readable)
    (ran : (conventions.override source base patch baseName).1 = .ok style) :
    (style.spec.mapKeys Key.toValue).Readable := by
  obtain ⟨spec, name, merged, held, _, step, ran⟩ := override_eq_ok ran
  obtain ⟨_, passed⟩ := input_of_compileChecked ran
  obtain ⟨changes, read, merges⟩ := mergedOnto_eq_ok.mp step
  obtain ⟨_, rfl⟩ := Spec.merge_eq_ok.mp merges
  have both := Spec.readable_patched (readable spec held) (Value.readable_of_spec? read)
  exact Spec.readable_of_snapshot both passed

theorem name_of_override (ran : (conventions.override source base patch baseName).1 = .ok style) :
    ∃ name, base.chosenName baseName = .ok name ∧ name.text? = some style.baseName ∧
      style.baseName ≠ "" := by
  obtain ⟨_, name, _, _, chosen, _, ran⟩ := override_eq_ok ran
  obtain ⟨named, _⟩ := input_of_compileChecked ran
  exact ⟨name, chosen, text_of_checkedBaseName named⟩

end Conventions

namespace Style.IsMade

variable {style : Style}

theorem readable (made : style.IsMade) : (style.spec.mapKeys Key.toValue).Readable := by
  induction made with
  | compiled ran =>
    obtain ⟨_, passed⟩ := Conventions.input_of_compileChecked ran
    obtain ⟨spec, read, passed⟩ := Value.spec?_of_snapshot passed
    exact Spec.readable_of_snapshot (Value.readable_of_spec? read) passed
  | overridden ran =>
    refine Conventions.readable_of_override (fun spec held => ?_) ran
    simp only [OverrideBase.spec?] at held
    split at held
    · cases held
      exact Spec.readable_ofEntries _
    · cases held
  | restyled _ ran ih =>
    refine Conventions.readable_of_override (fun spec held => ?_) ran
    cases held
    exact ih

/-- The base name of a style that has been made is one that is accepted. -/
theorem isBaseName (made : style.IsMade) : (Value.text style.baseName).IsBaseName := by
  have proper : style.baseName ≠ "" := by
    cases made with
    | compiled ran =>
      obtain ⟨named, _⟩ := Conventions.input_of_compileChecked ran
      exact (text_of_checkedBaseName named).2
    | overridden ran | restyled _ ran =>
      obtain ⟨_, _, _, proper⟩ := Conventions.name_of_override ran
      exact proper
  exact ⟨style.baseName, rfl, proper⟩

/-- The spec of a style that has been made is what its mapping is overridden as. -/
theorem spec?_toValue (made : style.IsMade) :
    (OverrideBase.spec style.spec.toValue).spec? = .ok (style.spec.mapKeys Key.toValue) := by
  have read := Option.some.inj (Spec.reads_toValue made.readable)
  exact congrArg Except.ok read

private theorem merged_toValue (made : style.IsMade) (patch : Value) :
    style.spec.toValue.merged patch =
      (mergedOnto [] (style.spec.mapKeys Key.toValue) patch).map fun merged =>
        .map (merged.toEntries id) := by
  have read := Option.some.inj (Spec.reads_toValue made.readable)
  rw [← read]
  rfl

variable {patch merged : Value} {fault : Fault}

/-- A patch is merged onto the spec of a style that has been made as onto its mapping. -/
theorem mergedOnto_of_merged (made : style.IsMade)
    (merges : style.spec.toValue.merged patch = .ok merged) :
    ∃ spec, mergedOnto [] (style.spec.mapKeys Key.toValue) patch = .ok spec := by
  rw [made.merged_toValue] at merges
  cases ran : mergedOnto [] (style.spec.mapKeys Key.toValue) patch with
  | ok spec => exact ⟨spec, rfl⟩
  | error own =>
    rw [ran] at merges
    cases merges

theorem mergedOnto_of_failed (made : style.IsMade)
    (failed : style.spec.toValue.merged patch = .error fault) :
    mergedOnto [] (style.spec.mapKeys Key.toValue) patch = .error fault := by
  rw [made.merged_toValue] at failed
  cases ran : mergedOnto [] (style.spec.mapKeys Key.toValue) patch with
  | ok spec =>
    rw [ran] at failed
    cases failed
  | error own =>
    rw [ran] at failed
    cases failed
    rfl

end Style.IsMade

/-! ## Overriding -/

namespace Conventions

variable {conventions : Conventions} {source : NameSource} {patch baseName : Value} {style : Style}

/-- A style is compiled anew under the name that is given, if this counts as true. -/
theorem override_style_of_true (counts : baseName.isTrue = true) (style : Style) :
    conventions.override source (.style style) patch baseName =
      match mergedOnto [] (style.spec.mapKeys Key.toValue) patch with
      | .ok merged => conventions.compileSpec source merged baseName
      | .error fault => (.error fault, source) := by
  refine override_eq rfl ?_
  rw [OverrideBase.chosenName, if_pos counts]

/-- Otherwise it is compiled anew under its own name. -/
theorem override_style_of_false (counts : baseName.isTrue = false) (style : Style) :
    conventions.override source (.style style) patch baseName =
      match mergedOnto [] (style.spec.mapKeys Key.toValue) patch with
      | .ok merged => conventions.compileSpec source merged (.text style.baseName)
      | .error fault => (.error fault, source) := by
  refine override_eq rfl ?_
  rw [OverrideBase.chosenName, if_neg (by simp [counts])]

theorem override_spec_of_given (made : style.IsMade) (given : baseName ≠ .null) :
    conventions.override source (.spec style.spec.toValue) patch baseName =
      match mergedOnto [] (style.spec.mapKeys Key.toValue) patch with
      | .ok merged => conventions.compileSpec source merged baseName
      | .error fault => (.error fault, source) := by
  refine override_eq made.spec?_toValue ?_
  cases baseName with
  | null => exact absurd rfl given
  | _ => rfl

section Merging

variable {merged : Value} {fault : Fault}

theorem override_style_of_failed (made : style.IsMade)
    (failed : style.spec.toValue.merged patch = .error fault) (baseName : Value) :
    conventions.override source (.style style) patch baseName = (.error fault, source) := by
  have ran := made.mergedOnto_of_failed failed
  cases counts : baseName.isTrue with
  | true => rw [override_style_of_true counts, ran]
  | false => rw [override_style_of_false counts, ran]

theorem override_spec_of_failed (made : style.IsMade) (given : baseName ≠ .null)
    (failed : style.spec.toValue.merged patch = .error fault) :
    conventions.override source (.spec style.spec.toValue) patch baseName =
      (.error fault, source) := by
  rw [override_spec_of_given made given, made.mergedOnto_of_failed failed]

/-- Once the merge succeeds, an override of a spec refuses every name that is no base name. -/
theorem override_spec_of_bad_name (made : style.IsMade) (given : baseName ≠ .null)
    (merges : style.spec.toValue.merged patch = .ok merged) (bad : ¬ baseName.IsBaseName) :
    conventions.override source (.spec style.spec.toValue) patch baseName =
      (.error (.spec (.badBaseName baseName) []), source) := by
  obtain ⟨spec, ran⟩ := made.mergedOnto_of_merged merges
  rw [override_spec_of_given made given, ran]
  exact compileChecked_of_bad_name bad

/-- What is compiled under an accepted base name is not refused for a name, and where it is not
refused for a key either, it uses a number. -/
theorem compileSpec_ne_refusal {spec : Spec Value} {name : Value} (named : name.IsBaseName)
    (other : Value) :
    conventions.compileSpec source spec name ≠
      (.error (.spec (.badBaseName other) []), source) := by
  intro same
  cases passed : spec.snapshot [] with
  | error fault =>
    rw [compileSpec, compileChecked_of_refused named passed] at same
    cases same
    exact Spec.ne_badBaseName_of_snapshot passed rfl
  | ok checked =>
    obtain ⟨root, text, ran⟩ :=
      @compileChecked_of_passed conventions source name _ _ named passed
    rw [compileSpec, ran] at same
    have number : source.next + 1 = source.next := congrArg (fun outcome => outcome.2.next) same
    omega

/-- And an override of a style refuses no name that counts as false. -/
theorem override_style_ne_refusal (made : style.IsMade)
    (merges : style.spec.toValue.merged patch = .ok merged) (counts : baseName.isTrue = false)
    (other : Value) :
    conventions.override source (.style style) patch baseName ≠
      (.error (.spec (.badBaseName other) []), source) := by
  obtain ⟨spec, ran⟩ := made.mergedOnto_of_merged merges
  rw [override_style_of_false counts, ran]
  exact compileSpec_ne_refusal made.isBaseName other

end Merging

/-- **Overriding a style agrees with overriding its spec, unless the name counts as false.** Where a name
is given, the two have the same outcome, in the style or the fault as in the numbers used, if and only if
the name counts as true or the merge fails. A failing merge is reported before any name; otherwise an
override of the spec refuses every name that is no base name. An override of the style takes a name that
counts as false for none at all, and the new style then has the base name of the old one; under any other
name it has that name. -/
theorem overriding_agrees_unless_name_counts_false (conventions : Conventions)
    (source : NameSource) (made : style.IsMade) (patch : Value) (given : baseName ≠ .null) :
    (conventions.override source (.style style) patch baseName =
        conventions.override source (.spec style.spec.toValue) patch baseName ↔
      baseName.isTrue = true ∨ ∃ fault, style.spec.toValue.merged patch = .error fault) ∧
    (∀ fault, style.spec.toValue.merged patch = .error fault →
      conventions.override source (.spec style.spec.toValue) patch baseName =
        (.error fault, source)) ∧
    (∀ merged, style.spec.toValue.merged patch = .ok merged → ¬ baseName.IsBaseName →
      conventions.override source (.spec style.spec.toValue) patch baseName =
        (.error (.spec (.badBaseName baseName) []), source)) ∧
    (baseName.isTrue = false →
      conventions.override source (.style style) patch baseName =
        conventions.override source (.style style) patch .null) ∧
    ∀ result, (conventions.override source (.style style) patch baseName).1 = .ok result →
      (baseName.isTrue = true → baseName.text? = some result.baseName) ∧
      (baseName.isTrue = false → result.baseName = style.baseName) := by
  refine ⟨⟨fun same => ?_, ?_⟩, fun _ failed => override_spec_of_failed made given failed,
    fun _ merges bad => override_spec_of_bad_name made given merges bad, fun counts => ?_,
    fun result ran => ?_⟩
  · by_contra neither
    obtain ⟨counts, merges⟩ := not_or.mp neither
    rw [Bool.not_eq_true] at counts
    cases merging : style.spec.toValue.merged patch with
    | error fault => exact merges ⟨fault, merging⟩
    | ok merged =>
      have bad : ¬ baseName.IsBaseName := fun accepted => by
        simp [Value.isTrue_of_isBaseName accepted] at counts
      rw [override_spec_of_bad_name made given merging bad] at same
      exact override_style_ne_refusal made merging counts baseName same
  · rintro (counts | ⟨fault, failed⟩)
    · rw [override_style_of_true counts, override_spec_of_given made given]
    · rw [override_style_of_failed made failed, override_spec_of_failed made given failed]
  · rw [override_style_of_false counts, override_style_of_false rfl]
  · obtain ⟨_, chosen, isText, _⟩ := name_of_override ran
    cases chosen
    constructor
    · intro counts
      rwa [if_pos counts] at isText
    · intro counts
      rw [if_neg (by simp [counts])] at isText
      exact (Option.some.inj isText).symm

/-- A style with a variant, and a patch for what is in it. -/
private def cardResult : Except Fault Style × NameSource :=
  compile {} .fresh (.map [(.text "on", .map [(.text "width", .int 1)])]) (.text "card")

private def widerPatch : Value := .map [(.text "on", .map [(.text "width", .int 2)])]

/-- Under another text the two agree, under a number both are refused, and under the empty text only the
override of the spec is. -/
theorem overriding_agrees_unless_name_counts_false_of_card :
    ∃ style : Style, cardResult.1 = .ok style ∧
      (∃ result, (override {} .fresh (.style style) widerPatch (.text "panel")).1 = .ok result ∧
        result.baseName = "panel") ∧
      override {} .fresh (.style style) widerPatch (.text "panel") =
        override {} .fresh (.spec style.spec.toValue) widerPatch (.text "panel") ∧
      override {} .fresh (.style style) widerPatch (.int 7) =
        (.error (.spec (.badBaseName (.int 7)) []), .fresh) ∧
      override {} .fresh (.style style) widerPatch (.text "") ≠
        override {} .fresh (.spec style.spec.toValue) widerPatch (.text "") := by
  have merged : (cardResult.1.bind fun style =>
      style.spec.toValue.merged widerPatch).isOk = true := by
    decide +kernel
  have renamed : (cardResult.1.bind fun style =>
      (override {} .fresh (.style style) widerPatch (.text "panel")).1).isOk = true := by
    decide +kernel
  obtain ⟨_, merges⟩ := exists_of_isOk merged
  obtain ⟨style, ran, merges⟩ := bind_eq_ok.mp merges
  obtain ⟨result, renames⟩ := exists_of_isOk renamed
  obtain ⟨same, again, renames⟩ := bind_eq_ok.mp renames
  cases ran.symm.trans again
  have made : style.IsMade := .compiled ran
  have agreement {name : Value} (given : name ≠ .null) :=
    overriding_agrees_unless_name_counts_false {} .fresh made widerPatch given
  obtain ⟨agrees, _, _, _, named⟩ := @agreement (.text "panel") nofun
  obtain ⟨refuses, _, bad, _, _⟩ := @agreement (.int 7) nofun
  obtain ⟨differs, _⟩ := @agreement (.text "") nofun
  refine ⟨style, ran, ⟨result, renames, ?_⟩, agrees.mpr (.inl rfl), ?_, ?_⟩
  · exact (Option.some.inj ((named result renames).1 rfl)).symm
  · exact (refuses.mpr (.inl rfl)).trans (bad _ merges nofun)
  · intro alike
    obtain counts | ⟨fault, failed⟩ := differs.mp alike
    · cases counts
    · cases merges.symm.trans failed

end Conventions

end ScopedStyle
