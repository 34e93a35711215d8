import ScopedStyle.Proofs.CompiledOutline
import ScopedStyle.Proofs.Separators

/-! Whether the class names of a style tell its variants apart. A class name is the root class and the
segments of a path with the separator before each, and no segment holds the separator. This is enough
if the separator is unbordered, and not if it is bordered: then a spec compiles in which two variants
have one class name. -/
namespace ScopedStyle

/-- A style in which variants with different paths have different class names, and none has that of
the root. -/
def Style.Unambiguous (style : Style) : Prop :=
  (∀ first ∈ style.modifiers, ∀ second ∈ style.modifiers,
    first.1 ≠ second.1 → first.2 ≠ second.2) ∧
  ∀ variant ∈ style.modifiers, variant.2 ≠ style.name

theorem toList_modifierClass (separator root : String) (path : List String) :
    (modifierClass separator root path).toList =
      root.toList ++ separated separator.toList (path.map String.toList) := by
  induction path generalizing root with
  | nil => simp [separated]
  | cons segment rest ih =>
    rw [modifierClass_cons, ih]
    simp [separated, String.toList_append]

namespace Conventions

variable {conventions : Conventions} {source : NameSource} {given baseName : Value} {style : Style}

/-- A variant of a style has a path below the root, without the separator in a segment of it, and the
class name that is made of the path. -/
theorem variant_of_snapshot {root base : String} {checked : Spec Key}
    (made : conventions.compileSnapshot root base checked = .ok style)
    {variant : List String × String} (member : variant ∈ style.modifiers) :
    variant.1 ≠ [] ∧ variant.2 = modifierClass conventions.separator style.name variant.1 ∧
      ∀ segment ∈ variant.1, occursIn conventions.separator.toList segment.toList = false := by
  rw [modifiers_of_outline (outline_of_snapshot made)] at member
  obtain ⟨scope, below, rfl⟩ := List.mem_map.mp member
  refine ⟨Spec.path_ne_nil_of_scopesBelow below, rfl, ?_⟩
  intro segment within
  obtain above | ⟨name, named, rfl⟩ := Spec.name_of_scopesBelow below within
  · cases above
  · exact names_of_snapshot made name named

theorem variant_of_compiled (compiled : (conventions.compile source given baseName).1 = .ok style)
    {variant : List String × String} (member : variant ∈ style.modifiers) :
    variant.1 ≠ [] ∧ variant.2 = modifierClass conventions.separator style.name variant.1 ∧
      ∀ segment ∈ variant.1, occursIn conventions.separator.toList segment.toList = false := by
  obtain ⟨_, _, _, _, made⟩ := compile_eq_ok.mp compiled
  exact variant_of_snapshot made member

/-- An empty separator is in every name, so where a variant compiles the separator is not empty. -/
private theorem separator_nonempty {segments : List String} (below : segments ≠ [])
    (avoids : ∀ segment ∈ segments,
      occursIn conventions.separator.toList segment.toList = false) :
    conventions.separator.toList ≠ [] := by
  intro empty
  obtain ⟨segment, member⟩ := List.exists_mem_of_ne_nil segments below
  have avoided := avoids segment member
  rw [empty] at avoided
  have occurs : occursIn [] segment.toList = true := occursIn_iff.mpr (List.nil_infix)
  rw [occurs] at avoided
  cases avoided

theorem modifier_ne_root (compiled : (conventions.compile source given baseName).1 = .ok style) :
    ∀ variant ∈ style.modifiers, variant.2 ≠ style.name := by
  intro variant member same
  obtain ⟨below, made, avoids⟩ := variant_of_compiled compiled member
  have nonempty := separator_nonempty below avoids
  have characters := congrArg String.toList (made.symm.trans same)
  rw [toList_modifierClass, List.append_right_eq_self] at characters
  exact separated_ne_nil nonempty (by simpa using below) characters

/-- Below an unbordered separator paths are read back from class names. -/
theorem modifiers_differ_of_snapshot {root base : String} {checked : Spec Key}
    (made : conventions.compileSnapshot root base checked = .ok style)
    (unbordered : isBordered conventions.separator.toList = false) :
    ∀ first ∈ style.modifiers, ∀ second ∈ style.modifiers,
      first.1 ≠ second.1 → first.2 ≠ second.2 := by
  intro first member second other differ same
  obtain ⟨below, firstMade, avoids⟩ := variant_of_snapshot made member
  obtain ⟨_, secondMade, otherAvoids⟩ := variant_of_snapshot made other
  have characters := congrArg String.toList (firstMade.symm.trans (same.trans secondMade))
  rw [toList_modifierClass, toList_modifierClass] at characters
  have paths : first.1.map String.toList = second.1.map String.toList :=
    separated_injective unbordered (separator_nonempty below avoids)
      (List.forall_mem_map.mpr avoids) (List.forall_mem_map.mpr otherAvoids)
      (List.append_cancel_left characters)
  exact differ (List.map_injective_iff.mpr (fun _ _ => String.toList_inj.mp) paths)

theorem modifiers_differ (compiled : (conventions.compile source given baseName).1 = .ok style)
    (unbordered : isBordered conventions.separator.toList = false) :
    ∀ first ∈ style.modifiers, ∀ second ∈ style.modifiers,
      first.1 ≠ second.1 → first.2 ≠ second.2 := by
  obtain ⟨_, _, _, _, made⟩ := compile_eq_ok.mp compiled
  exact modifiers_differ_of_snapshot made unbordered

/-! ## A collision -/

/-- Two scopes with a scope each: below an empty name one with the last name given, and below the
first name given one with an empty name. -/
def crossedSpec (first last : String) : Spec Key :=
  .scope (.ofText "") none (.scope (.ofText last) none .nil .nil)
    (.scope (.ofText first) none (.scope (.ofText "") none .nil .nil) .nil)

private theorem crossedSpec_snapshot (first last : String) :
    (crossedSpec first last).toValue.snapshot [] = .ok (crossedSpec first last) := by
  have read : (crossedSpec first last).toValue.spec? =
      some ((crossedSpec first last).mapKeys Key.toValue) := rfl
  rw [Value.snapshot_of_spec? read, Spec.snapshot_mapKeys]
  rfl

/-- A spec whose scopes hold no leaves compiles if the separator is in none of their names. -/
theorem exists_compiled_of_bare (source : NameSource) {name : String} {checked : Spec Key}
    (named : checkedBaseName baseName = .ok name) (passed : given.snapshot [] = .ok checked)
    (bare : ∀ scope ∈ checked.scopes, scope.2.leaves = [])
    (avoid : ∀ key ∈ checked.variantNames,
      occursIn conventions.separator.toList key.text.toList = false) :
    ∃ style, (conventions.compile source given baseName).1 = .ok style := by
  refine (compile_isOk named passed).mpr ⟨avoid, ?_⟩
  intro scope member
  apply Spec.declarations_isOk.mpr
  rw [bare scope member]
  exact fun held leaf => absurd leaf List.not_mem_nil

private theorem crossedSpec_compiles (source : NameSource) {name first last : String}
    (named : checkedBaseName baseName = .ok name)
    (firstAvoids : occursIn conventions.separator.toList first.toList = false)
    (lastAvoids : occursIn conventions.separator.toList last.toList = false)
    (emptyAvoids : occursIn conventions.separator.toList [] = false) :
    ∃ style, (conventions.compile source (crossedSpec first last).toValue baseName).1 =
      .ok style := by
  apply exists_compiled_of_bare source named (crossedSpec_snapshot first last)
  · simp [crossedSpec, Spec.scopes, Spec.scopesBelow, Spec.leaves]
  · simp [crossedSpec, Spec.variantNames, Key.ofText, firstAvoids, lastAvoids, emptyAvoids]

theorem modifier_of_path (compiled : (conventions.compile source given baseName).1 = .ok style)
    {path : List String} (below : path ∈ (style.spec.scopesBelow []).map (·.1)) :
    (path, modifierClass conventions.separator style.name path) ∈ style.modifiers := by
  obtain ⟨scope, member, rfl⟩ := List.mem_map.mp below
  rw [modifiers_of_compiled compiled]
  exact List.mem_map.mpr ⟨scope, member, rfl⟩

/-- Below a bordered separator there are specs in which two variants get one class name. -/
theorem exists_ambiguous (bordered : isBordered conventions.separator.toList = true)
    (source : NameSource) {name : String} (named : checkedBaseName baseName = .ok name) :
    ∃ given style, (conventions.compile source given baseName).1 = .ok style ∧
      ∃ first ∈ style.modifiers, ∃ second ∈ style.modifiers,
        first.1 ≠ second.1 ∧ first.2 = second.2 := by
  obtain ⟨start, rest, proper, startAvoids, restAvoids, emptyAvoids, same⟩ :=
    separated_collision bordered
  obtain ⟨first, rfl⟩ : ∃ first, String.toList first = start := ⟨.ofList start, String.toList_ofList⟩
  obtain ⟨last, rfl⟩ : ∃ last, String.toList last = rest := ⟨.ofList rest, String.toList_ofList⟩
  obtain ⟨style, compiled⟩ :=
    crossedSpec_compiles source named startAvoids restAvoids emptyAvoids
  have checked : style.spec = crossedSpec first last :=
    Except.ok.inj ((outline_of_compiled compiled).1.symm.trans (crossedSpec_snapshot first last))
  have inFirst : ["", last] ∈ (style.spec.scopesBelow []).map (·.1) := by
    simp [checked, crossedSpec, Spec.scopesBelow, Key.ofText]
  have inSecond : [first, ""] ∈ (style.spec.scopesBelow []).map (·.1) := by
    simp [checked, crossedSpec, Spec.scopesBelow, Key.ofText]
  refine ⟨_, style, compiled, _, modifier_of_path compiled inFirst,
    _, modifier_of_path compiled inSecond, ?_, ?_⟩
  · intro equal
    have empty : "" = first := (List.cons.inj equal).1
    exact proper (by simp [← empty])
  · apply String.toList_injective
    rw [toList_modifierClass, toList_modifierClass]
    simpa using same

/-- **Class names tell variants apart exactly if the separator is unbordered.** Below every root class,
and whatever is compiled there, no variant has the class name of the root; and it is always so that
variants with different paths have different class names if and only if no part of the separator,
neither empty nor the whole of it, both begins and ends it. -/
theorem unambiguous_iff_unbordered (conventions : Conventions) (source : NameSource)
    {baseName : Value} {name : String} (named : checkedBaseName baseName = .ok name) :
    (∀ given style, (conventions.compile source given baseName).1 = .ok style →
      ∀ variant ∈ style.modifiers, variant.2 ≠ style.name) ∧
    ((∀ given style, (conventions.compile source given baseName).1 = .ok style →
      style.Unambiguous) ↔ isBordered conventions.separator.toList = false) := by
  refine ⟨fun _ _ compiled => modifier_ne_root compiled, ?_, ?_⟩
  · intro unambiguous
    by_contra bordered
    obtain ⟨given, style, compiled, first, member, second, other, differ, same⟩ :=
      exists_ambiguous (Bool.not_eq_false _ ▸ bordered) source named
    exact (unambiguous given style compiled).1 first member second other differ same
  · intro unbordered given style compiled
    exact ⟨modifiers_differ compiled unbordered, modifier_ne_root compiled⟩

/-- An arrow tells variants apart, and the two dashes that stand between segments unless another
separator is chosen do not. -/
theorem unambiguous_iff_unbordered_of_dashes :
    (∀ given style,
      (Conventions.compile { separator := "->" } .fresh given (.text "x")).1 = .ok style →
        style.Unambiguous) ∧
    ¬ ∀ given style,
      (Conventions.compile {} .fresh given (.text "x")).1 = .ok style → style.Unambiguous := by
  have named : checkedBaseName (.text "x") = .ok "x" := rfl
  constructor
  · exact (unambiguous_iff_unbordered { separator := "->" } .fresh named).2.mpr (by decide)
  · intro unambiguous
    have unbordered := (unambiguous_iff_unbordered {} .fresh named).2.mp unambiguous
    exact absurd unbordered (by decide)

/-- Below names that end and begin with a dash the two dashes can be read in two places. -/
example :
    (Conventions.compile {} .fresh (.map [
      (.text "a-", .map [(.text "b", .map [])]), (.text "a", .map [(.text "-b", .map [])])])
      (.text "x")).1.toOption.map Style.modifiers = some [
        (["a-"], "X_x1--a-"), (["a-", "b"], "X_x1--a---b"),
        (["a"], "X_x1--a"), (["a", "-b"], "X_x1--a---b")] := by
  decide +kernel

end Conventions

end ScopedStyle
