import ScopedStyle.Proofs.ClassAttributes
import ScopedStyle.Proofs.ScopePlaces
import ScopedStyle.Proofs.SpecReading

/-! What an override leaves alone. The style that comes of it has a scope wherever the overridden one
has, in the same order, and one more for each scope that only the patch has. A rule changes only where
the patch has leaves, and class names and selectors only in the root class that they begin with. -/
namespace ScopedStyle.Conventions

variable {conventions : Conventions} {source : NameSource} {style result : Style}

/-! ## Checked specs of styles -/

/-- The spec of a style has its leaves as they are kept, however the style was made. -/
theorem Makes.settled (made : conventions.Makes style) : style.spec.settled = style.spec := by
  have checked : ∃ spec : Spec Value, spec.snapshot [] = .ok style.spec := by
    cases made with
    | compiled ran =>
      obtain ⟨spec, _, passed⟩ := Value.spec?_of_snapshot (input_of_compileChecked ran).2
      exact ⟨spec, passed⟩
    | overridden ran =>
      unfold override at ran
      split at ran
      · cases ran
      · exact ⟨_, (input_of_compileChecked ran).2⟩
  obtain ⟨spec, passed⟩ := checked
  obtain ⟨keyed, rfl⟩ := Spec.textKeyed_of_snapshot passed
  rw [Spec.snapshot_mapKeys, Except.ok.injEq] at passed
  rw [← passed, Spec.settled_settled]

/-- Overriding what has texts for keys gives a style with the merged spec, and the patch is a mapping
with texts for keys, too. -/
theorem spec_of_override {base : OverrideBase} {spec : Spec Key} {patch : GivenValue} {baseName : Value}
    (given : base.spec? = .ok (spec.mapKeys Key.toValue))
    (ran : (conventions.override source base patch baseName).1 = .ok result) :
    ∃ changes : Mapping Key, patch.value.spec? = some (changes.spec.mapKeys Key.toValue) ∧
      spec.firstConflict? changes = none ∧ result.spec = (spec.patched changes).settled := by
  have distinct := patch.distinct
  unfold override at ran
  split at ran
  · cases ran
  · next merged name chosen =>
    obtain ⟨own, held, chosen⟩ := bind_eq_ok.mp chosen
    cases given.symm.trans held
    obtain ⟨_, _, chosen⟩ := bind_eq_ok.mp chosen
    obtain ⟨_, onto, same⟩ := bind_eq_ok.mp chosen
    cases same
    obtain ⟨changes, read, step⟩ := mergedOnto_eq_ok.mp onto
    obtain ⟨free, rfl⟩ := Spec.merge_eq_ok.mp step
    obtain ⟨_, passed⟩ := input_of_compileChecked ran
    -- The merge has passed the check, so all keys in it are texts, and with them those of the patch.
    simp only [Value.hasDistinctKeys, read] at distinct
    obtain ⟨keyed, rfl⟩ := Spec.textKeyed_of_patched ⟨spec, rfl⟩ free distinct
      (Spec.textKeyed_of_snapshot passed)
    have faithful := Key.toValue_beq_toValue
    rw [Spec.hasDistinctKeys_mapKeys faithful] at distinct
    rw [Spec.firstConflict?_mapKeys faithful, Option.map_eq_none_iff] at free
    rw [← Spec.mapKeys_patched faithful, Spec.snapshot_mapKeys, Except.ok.injEq] at passed
    exact ⟨⟨keyed, distinct⟩, read, free, passed.symm⟩

/-- A style that a compiler has made of what can be given; its spec has no key twice either. -/
structure MadeStyle (conventions : Conventions) where
  style : Style
  made : conventions.Makes style
  distinct : style.spec.hasDistinctKeys = true

namespace MadeStyle

/-- The style that a value compiles to. -/
def compiled (given : GivenValue) {baseName : Value}
    (ran : (conventions.compile source given baseName).1 = .ok style) : conventions.MadeStyle where
  style := style
  made := .compiled ran
  distinct := by
    obtain ⟨spec, read, checked⟩ := Value.spec?_of_snapshot (input_of_compileChecked ran).2
    have distinct := given.distinct
    simp only [Value.hasDistinctKeys, read] at distinct
    rw [Spec.hasDistinctKeys_of_snapshot checked, distinct]

/-- The style that another is overridden to. -/
def overridden (before : conventions.MadeStyle) (patch : GivenValue) {baseName : Value}
    (ran : (conventions.override source (.style before.style) patch baseName).1 = .ok result) :
    conventions.MadeStyle where
  style := result
  made := .overridden ran
  distinct := by
    obtain ⟨changes, _, _, merged⟩ := spec_of_override rfl ran
    rw [merged, Spec.hasDistinctKeys_settled]
    exact Spec.hasDistinctKeys_patched before.distinct changes.distinct

end MadeStyle

/-! ## Rules at paths -/

/-- The walk of a style meets the scopes of its spec. -/
theorem Makes.paths (made : conventions.Makes style) :
    style.root.preorder.map (·.path) = style.spec.scopes.map (·.1) :=
  map_outline (outline_of_snapshot made.snapshot) fun path _ => path

theorem Makes.variants (made : conventions.Makes style) :
    style.variants = (style.spec.scopesBelow []).map (·.1) := by
  rw [Style.variants, made.modifiers, List.map_map]
  exact List.map_id _

/-- A node of a style declares what the leaves of a scope with its path do. -/
theorem Makes.declarations_of_scope (made : conventions.Makes style) {node : ScopeRule}
    (member : node ∈ style.root.preorder) :
    ∃ held declared, (node.path, held) ∈ style.spec.scopes ∧
      held.declarations conventions.unit = .ok declared ∧
      node.rule.declarations = enclosed node.path declared := by
  obtain ⟨⟨path, held⟩, within, outlines⟩ :=
    scope_of_outline (outline_of_snapshot made.snapshot) member
  obtain ⟨declared, ran, same⟩ := outlines.declarations
  have here : node.path = path := outlines.path
  exact ⟨held, declared, here ▸ within, ran, here ▸ same⟩

/-- Nodes with one path, of two styles of one compiler, differ in the root classes that their class
names and selectors begin with, and not in what follows these. -/
theorem Makes.names_of_path (made : conventions.Makes style) (remade : conventions.Makes result)
    {node now : ScopeRule} (member : node ∈ style.root.preorder)
    (still : now ∈ result.root.preorder) (same : now.path = node.path) :
    ∃ (suffix : String) (suffixes : List String),
      node.className = style.name ++ suffix ∧ now.className = result.name ++ suffix ∧
      node.rule.selectors = suffixes.map (("." ++ style.name) ++ ·) ∧
      now.rule.selectors = suffixes.map (("." ++ result.name) ++ ·) := by
  obtain ⟨_, className, selectors⟩ := made.node_of_scope member
  obtain ⟨_, newName, newSelectors⟩ := remade.node_of_scope still
  obtain ⟨suffixes, below⟩ :=
    conventions.pseudoClasses.variantSelectors_root conventions.separator node.path
  refine ⟨modifierClass conventions.separator "" node.path, suffixes, ?_, ?_, ?_, ?_⟩
  · rw [className, modifierClass_root]
  · rw [newName, modifierClass_root, same]
  · rw [selectors, below]
  · rw [newSelectors, same, below]

/-! ## Overriding -/

/-- A rule declares what it did if the patch has no leaves at its path. -/
private theorem declarations_kept {before : conventions.MadeStyle} {changes : Mapping Key}
    (remade : conventions.Makes result) (free : before.style.spec.firstConflict? changes = none)
    (merged : result.spec = (before.style.spec.patched changes).settled)
    {node now : ScopeRule} (member : node ∈ before.style.root.preorder)
    (still : now ∈ result.root.preorder) (same : now.path = node.path)
    (leafless : ∀ scope, (node.path, scope) ∈ changes.spec.scopes → scope.leaves = []) :
    now.rule.declarations = node.rule.declarations := by
  obtain ⟨held, declared, within, ran, declares⟩ := before.made.declarations_of_scope member
  obtain ⟨kept, redeclared, inside, rerun, redeclares⟩ := remade.declarations_of_scope still
  rw [merged, same] at inside
  obtain ⟨scope, inMerge, rfl⟩ := Spec.mem_scopes_settled inside
  have leaves : scope.leaves = held.leaves := Spec.leaves_of_scopes_patched free before.distinct
    changes.distinct within inMerge leafless
  have alike : scope.settled.leaves = held.leaves := by
    rw [Spec.leaves_settled, leaves, ← Spec.leaves_settled,
      Spec.settled_of_scopes before.made.settled within]
  rw [Spec.declarations_congr alike, ran] at rerun
  cases rerun
  rw [redeclares, declares, same]

/-- **An override touches only what the patch has.** Every variant of the overridden style is one of
the result, in the same order, and the others are the scopes of the patch that the style does not have.
No path is met twice. At each path of the style the rule declares what it did, in the same order, unless
the patch has leaves directly there; and the class name and the selectors are those of the style with
another root class before them. -/
theorem override_touches_only_patched (before : conventions.MadeStyle) (patch : GivenValue)
    {baseName : Value}
    (ran : (conventions.override source (.style before.style) patch baseName).1 = .ok result) :
    ∃ changes : Spec Key, patch.value.spec? = some (changes.mapKeys Key.toValue) ∧
      before.style.variants.Sublist result.variants ∧
      (∀ path, path ∈ result.variants ∧ path ∉ before.style.variants ↔
        path ∈ (changes.scopesBelow []).map (·.1) ∧ path ∉ before.style.variants) ∧
      (result.root.preorder.map (·.path)).Nodup ∧
      ∀ node ∈ before.style.root.preorder, ∃ now ∈ result.root.preorder, now.path = node.path ∧
        ((∀ scope, (node.path, scope) ∈ changes.scopes → scope.leaves = []) →
          now.rule.declarations = node.rule.declarations) ∧
        ∃ (suffix : String) (suffixes : List String),
          node.className = before.style.name ++ suffix ∧ now.className = result.name ++ suffix ∧
          node.rule.selectors = suffixes.map (("." ++ before.style.name) ++ ·) ∧
          now.rule.selectors = suffixes.map (("." ++ result.name) ++ ·) := by
  have made := before.made
  have remade : conventions.Makes result := .overridden ran
  obtain ⟨changes, read, free, merged⟩ := spec_of_override rfl ran
  have scopes : result.spec.scopes.map (·.1) =
      (before.style.spec.patched changes).scopes.map (·.1) := by
    rw [merged, Spec.scopes_settled, List.map_map]
    rfl
  have grown (path : List String) : path ∈ result.spec.scopes.map (·.1) ↔
      path ∈ before.style.spec.scopes.map (·.1) ∨ path ∈ changes.spec.scopes.map (·.1) := by
    rw [scopes]
    exact Spec.path_of_scopes_patched free before.distinct changes.distinct
  refine ⟨changes, read, ?_, ?_, ?_, ?_⟩
  · have below := congrArg List.tail scopes
    simp only [Spec.scopes, List.map_cons, List.tail_cons] at below
    rw [made.variants, remade.variants, below]
    exact Spec.sublist_scopesBelow_patched before.style.spec changes []
  · intro path
    rw [made.variants, remade.variants, Spec.path_of_scopesBelow_iff, Spec.path_of_scopesBelow_iff,
      Spec.path_of_scopesBelow_iff, grown]
    tauto
  · rw [remade.paths]
    exact Spec.nodup_paths_of_scopes (MadeStyle.overridden before patch ran).distinct
  · intro node member
    have path : node.path ∈ before.style.root.preorder.map (·.path) := List.mem_map_of_mem member
    rw [made.paths] at path
    have kept : node.path ∈ result.root.preorder.map (·.path) := by
      rw [remade.paths]
      exact (grown node.path).mpr (.inl path)
    obtain ⟨now, still, same⟩ := List.mem_map.mp kept
    refine ⟨now, still, same, ?_, made.names_of_path remade member still same⟩
    exact declarations_kept remade free merged member still same

/-- A patch that puts a scope into the first of two, and has a leaf there alone. -/
private def panelChanges : Spec Key :=
  .scope (.ofText "on") none
    (.scope (.ofText "hover") none (.leaf (.ofText "height") (.int 2) .nil) .nil) .nil

private def panelPatch : GivenValue := ⟨panelChanges.toValue, by decide⟩

private def panelSpec : GivenValue :=
  ⟨.map [(.text "on", .map [(.text "width", .int 1)]), (.text "off", .map [])], by decide⟩

private def panelStyle : Except Fault Style :=
  (compile {} .fresh panelSpec (.text "panel")).1

private def panelResult : Except Fault Style :=
  panelStyle >>= fun style => (override {} .fresh (.style style) panelPatch .null).1

theorem override_touches_only_patched_of_panel :
    ∃ style result, ({} : Conventions).Makes style ∧
      (override {} .fresh (.style style) panelPatch .null).1 = .ok result ∧
      style.variants = [["on"], ["off"]] ∧ style.variants.Sublist result.variants ∧
      ["on", "hover"] ∈ result.variants ∧
      ∃ node ∈ style.root.preorder, ∃ now ∈ result.root.preorder, node.path = ["on"] ∧
        now.path = ["on"] ∧ now.rule.declarations = node.rule.declarations := by
  have runs : panelResult.isOk = true := by decide +kernel
  obtain ⟨result, ran⟩ := exists_of_isOk runs
  obtain ⟨style, compiled, ran⟩ := bind_eq_ok.mp ran
  have start : (compile {} .fresh panelSpec (.text "panel")).1 = .ok style := compiled
  have made : ({} : Conventions).Makes style := .compiled start
  have shape : panelStyle.toOption.map (·.variants) = some [["on"], ["off"]] := by decide +kernel
  rw [compiled] at shape
  have variants : style.variants = [["on"], ["off"]] := Option.some.inj shape
  obtain ⟨changes, read, kept, new, _, rules⟩ :=
    override_touches_only_patched (.compiled panelSpec start) panelPatch ran
  have given : panelPatch.value.spec? = some (panelChanges.mapKeys Key.toValue) := rfl
  have same : panelChanges = changes :=
    Spec.mapKeys_injective Key.toValue_injective (Option.some.inj (given.symm.trans read))
  subst same
  have absent : ["on", "hover"] ∉ style.variants := by simp [variants]
  have added : ["on", "hover"] ∈ result.variants ∧ ["on", "hover"] ∉ style.variants :=
    (new _).mpr ⟨by simp [panelChanges, Spec.scopesBelow, Key.ofText], absent⟩
  have listed : ["on"] ∈ style.root.preorder.map (·.path) := by
    rw [made.paths]
    have below : ["on"] ∈ (style.spec.scopesBelow []).map (·.1) := by
      rw [← made.variants, variants]
      exact List.mem_cons_self
    exact List.mem_cons_of_mem _ below
  obtain ⟨node, member, path⟩ := List.mem_map.mp listed
  obtain ⟨now, still, there, unchanged, _⟩ := rules node member
  refine ⟨style, result, made, ran, variants, kept, added.1, node, member, now, still, path,
    there.trans path, unchanged ?_⟩
  intro scope inPatch
  rw [path] at inPatch
  have found : scope = .scope (.ofText "hover") none (.leaf (.ofText "height") (.int 2) .nil) .nil := by
    simpa [panelChanges, Spec.scopes, Spec.scopesBelow, Key.ofText] using inPatch
  rw [found]
  rfl

end ScopedStyle.Conventions
