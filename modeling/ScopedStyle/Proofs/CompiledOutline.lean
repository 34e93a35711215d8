import Mathlib.Data.List.Forall2
import ScopedStyle.Compilation
import ScopedStyle.Proofs.SpecScopes

/-! The outline of a compiled style. The walk of its tree meets the scopes of its spec one by one,
each where it stands when the spec is laid out depth first; so there is one rule for each scope, with
what the leaves directly in the scope declare, and one class name for each scope below the root. -/
namespace ScopedStyle

/-- What the rule of the scope with a path declares, given what its leaves do: at the root this is
enclosed in the box sizing. -/
def enclosed : List String → List Declaration → List Declaration
  | [], declared => boxSizing :: declared ++ [mozBoxSizing]
  | _ :: _, declared => declared

namespace Conventions

/-- A compiled scope that a scope of a spec, with its path, is compiled to below a root class. -/
structure Outlines (conventions : Conventions) (root : String) (scope : List String × Spec Key)
    (node : ScopeRule) : Prop where
  path : node.path = scope.1
  className : node.className = modifierClass conventions.separator root scope.1
  declarations : ∃ declared, scope.2.declarations conventions.unit = .ok declared ∧
    node.rule.declarations = enclosed scope.1 declared

variable {conventions : Conventions}

/-! ## Entries -/

theorem checkVariantName_eq_ok {path : List Key} {name : Key} {done : Unit} :
    conventions.checkVariantName path name = .ok done ↔
      occursIn conventions.separator.toList name.text.toList = false := by
  unfold checkVariantName
  split
  · next holds => simp [holds]
  · next avoids => simpa using avoids

theorem compileEntries_leaf_eq_ok {root : String} {path : List Key} {key : Key} {value : Value}
    {rest : Spec Key} {entries : CompiledEntries} :
    conventions.compileEntries root path (.leaf key value rest) = .ok entries ↔
      ∃ own others, value.declarations conventions.unit key.text = .ok own ∧
        conventions.compileEntries root path rest = .ok others ∧
        ⟨own ++ others.declarations, others.children⟩ = entries := by
  simp only [compileEntries, bind_eq_ok, Except.ok.injEq]
  constructor
  · rintro ⟨own, declared, others, ran, same⟩
    exact ⟨own, others, declared, ran, same⟩
  · rintro ⟨own, others, declared, ran, same⟩
    exact ⟨own, declared, others, ran, same⟩

theorem compileEntries_scope_eq_ok {root : String} {path : List Key} {key : Key}
    {traits : Option (Traits Value)} {inner rest : Spec Key} {entries : CompiledEntries} :
    conventions.compileEntries root path (.scope key traits inner rest) = .ok entries ↔
      occursIn conventions.separator.toList key.text.toList = false ∧
      ∃ inside others, conventions.compileEntries root (path ++ [key]) inner = .ok inside ∧
        conventions.compileEntries root path rest = .ok others ∧
        ⟨others.declarations, conventions.variantNode root ((path ++ [key]).map (·.text)) inside ::
          others.children⟩ = entries := by
  simp only [compileEntries, bind_eq_ok, checkVariantName_eq_ok, Except.ok.injEq]
  constructor
  · rintro ⟨_, avoids, inside, ranInner, others, ran, same⟩
    exact ⟨avoids, inside, others, ranInner, ran, same⟩
  · rintro ⟨avoids, inside, others, ranInner, ran, same⟩
    exact ⟨(), avoids, inside, ranInner, others, ran, same⟩

private theorem variantNode_outlines (root : String) {path : List String} (below : path ≠ [])
    {inner : Spec Key} {entries : CompiledEntries}
    (declared : inner.declarations conventions.unit = .ok entries.declarations) :
    conventions.Outlines root (path, inner) (conventions.variantNode root path entries).scope where
  path := rfl
  className := rfl
  declarations := by
    refine ⟨_, declared, ?_⟩
    cases path with
    | nil => exact absurd rfl below
    | cons first further => rfl

/-- The entries of a scope are compiled to the declarations of the leaves among them, and to one node
for each scope in it. -/
theorem compileEntries_outline {root : String} {path : List Key} {spec : Spec Key}
    {entries : CompiledEntries} (ran : conventions.compileEntries root path spec = .ok entries) :
    spec.declarations conventions.unit = .ok entries.declarations ∧
      List.Forall₂ (conventions.Outlines root) (spec.scopesBelow (path.map (·.text)))
        (forestPreorder entries.children) := by
  induction spec generalizing path entries with
  | nil =>
    cases ran
    exact ⟨rfl, .nil⟩
  | leaf key value rest ih =>
    obtain ⟨own, others, declared, further, rfl⟩ := compileEntries_leaf_eq_ok.mp ran
    obtain ⟨beside, outline⟩ := ih further
    exact ⟨Spec.declarations_leaf_eq_ok.mpr ⟨own, _, declared, beside, rfl⟩, outline⟩
  | scope key traits inner rest ihInner ih =>
    obtain ⟨_, inside, others, ranInner, further, rfl⟩ := compileEntries_scope_eq_ok.mp ran
    obtain ⟨declared, below⟩ := ihInner ranInner
    obtain ⟨beside, outline⟩ := ih further
    rw [List.map_append] at below
    have node := variantNode_outlines root
      (List.append_ne_nil_of_right_ne_nil (path.map (·.text)) (List.cons_ne_nil key.text [])) declared
    refine ⟨beside, ?_⟩
    rw [List.map_append]
    exact .cons node (List.rel_append below outline)

/-- The entries of a scope can be compiled if no name of a variant holds the separator, and the leaves
have declarations in the scope itself and in every scope in it. -/
theorem compileEntries_isOk {root : String} {path : List Key} {spec : Spec Key} :
    (∃ entries, conventions.compileEntries root path spec = .ok entries) ↔
      (∀ name ∈ spec.variantNames,
        occursIn conventions.separator.toList name.text.toList = false) ∧
      (∃ declared, spec.declarations conventions.unit = .ok declared) ∧
      ∀ scope ∈ spec.scopesBelow (path.map (·.text)),
        ∃ declared, scope.2.declarations conventions.unit = .ok declared := by
  induction spec generalizing path with
  | nil => simp [compileEntries, Spec.variantNames, Spec.scopesBelow, Spec.declarations, Spec.leaves,
      pure, Except.pure, bind, Except.bind]
  | leaf key value rest ih =>
    constructor
    · rintro ⟨_, ran⟩
      obtain ⟨own, others, declared, further, _⟩ := compileEntries_leaf_eq_ok.mp ran
      obtain ⟨avoid, ⟨beside, also⟩, below⟩ := ih.mp ⟨others, further⟩
      exact ⟨avoid, ⟨_, Spec.declarations_leaf_eq_ok.mpr ⟨own, beside, declared, also, rfl⟩⟩, below⟩
    · rintro ⟨avoid, ⟨_, whole⟩, below⟩
      obtain ⟨own, beside, declared, also, _⟩ := Spec.declarations_leaf_eq_ok.mp whole
      obtain ⟨others, further⟩ := ih.mpr ⟨avoid, ⟨beside, also⟩, below⟩
      exact ⟨_, compileEntries_leaf_eq_ok.mpr ⟨own, others, declared, further, rfl⟩⟩
  | scope key traits inner rest ihInner ih =>
    have here : (path ++ [key]).map (·.text) = path.map (·.text) ++ [key.text] := List.map_append
    simp only [Spec.variantNames, Spec.scopesBelow, Spec.declarations_scope, List.forall_mem_cons,
      List.forall_mem_append, ← here]
    constructor
    · rintro ⟨_, ran⟩
      obtain ⟨first, inside, others, ranInner, further, _⟩ := compileEntries_scope_eq_ok.mp ran
      obtain ⟨avoidInner, own, belowInner⟩ := ihInner.mp ⟨inside, ranInner⟩
      obtain ⟨avoid, beside, below⟩ := ih.mp ⟨others, further⟩
      exact ⟨⟨first, avoidInner, avoid⟩, beside, own, belowInner, below⟩
    · rintro ⟨⟨first, avoidInner, avoid⟩, beside, own, belowInner, below⟩
      obtain ⟨inside, ranInner⟩ := ihInner.mpr ⟨avoidInner, own, belowInner⟩
      obtain ⟨others, further⟩ := ih.mpr ⟨avoid, beside, below⟩
      exact ⟨_, compileEntries_scope_eq_ok.mpr ⟨first, inside, others, ranInner, further, rfl⟩⟩

/-! ## Styles -/

/-- Input that passes the checks compiles if no name of a variant holds the separator and the leaves
of every scope have declarations. -/
theorem compile_isOk {source : NameSource} {given baseName : Value} {name : String}
    {checked : Spec Key} (named : checkedBaseName baseName = .ok name)
    (passed : given.snapshot [] = .ok checked) :
    (∃ style, (conventions.compile source given baseName).1 = .ok style) ↔
      (∀ key ∈ checked.variantNames,
        occursIn conventions.separator.toList key.text.toList = false) ∧
      ∀ scope ∈ checked.scopes, ∃ declared, scope.2.declarations conventions.unit = .ok declared := by
  rw [Spec.scopes, List.forall_mem_cons]
  refine Iff.trans ?_ (@compileEntries_isOk _ (issuedName name source.next) [] checked)
  constructor
  · rintro ⟨style, compiled⟩
    obtain ⟨own, spec, ownNamed, ownPassed, made⟩ := compile_eq_ok.mp compiled
    cases named.symm.trans ownNamed
    cases passed.symm.trans ownPassed
    obtain ⟨entries, ran, _⟩ := compileSnapshot_eq_ok.mp made
    exact ⟨entries, ran⟩
  · rintro ⟨entries, ran⟩
    exact ⟨_, compile_eq_ok.mpr
      ⟨name, checked, named, passed, compileSnapshot_eq_ok.mpr ⟨entries, ran, rfl⟩⟩⟩

/-- The tree of a style walks through the scopes of the checked spec that the style holds. -/
theorem outline_of_snapshot {root baseName : String} {checked : Spec Key} {style : Style}
    (made : conventions.compileSnapshot root baseName checked = .ok style) :
    List.Forall₂ (conventions.Outlines style.name) style.spec.scopes style.root.preorder := by
  obtain ⟨entries, ran, rfl⟩ := compileSnapshot_eq_ok.mp made
  obtain ⟨declared, below⟩ := compileEntries_outline ran
  have node : conventions.Outlines root ([], checked) (rootNode root entries).scope :=
    ⟨rfl, (modifierClass_nil _ _).symm, entries.declarations, declared, rfl⟩
  exact .cons node below

theorem outline_of_compiled {source : NameSource} {given baseName : Value} {style : Style}
    (compiled : (conventions.compile source given baseName).1 = .ok style) :
    given.snapshot [] = .ok style.spec ∧
      List.Forall₂ (conventions.Outlines style.name) style.spec.scopes style.root.preorder := by
  obtain ⟨name, checked, _, passed, made⟩ := compile_eq_ok.mp compiled
  have outline := outline_of_snapshot made
  obtain ⟨entries, ran, rfl⟩ := compileSnapshot_eq_ok.mp made
  exact ⟨passed, outline⟩

/-- No name of a variant holds the separator. -/
theorem names_of_snapshot {root baseName : String} {checked : Spec Key} {style : Style}
    (made : conventions.compileSnapshot root baseName checked = .ok style) :
    ∀ name ∈ style.spec.variantNames,
      occursIn conventions.separator.toList name.text.toList = false := by
  obtain ⟨entries, ran, rfl⟩ := compileSnapshot_eq_ok.mp made
  exact (compileEntries_isOk.mp ⟨entries, ran⟩).1

/-- What is told from the paths and the class names on the walk is told from the paths of the scopes. -/
theorem map_outline {α : Type} {root : String} {scopes : List (List String × Spec Key)}
    {nodes : List ScopeRule} (outline : List.Forall₂ (conventions.Outlines root) scopes nodes)
    (of : List String → String → α) :
    nodes.map (fun node => of node.path node.className) =
      scopes.map fun scope => of scope.1 (modifierClass conventions.separator root scope.1) := by
  induction outline with
  | nil => rfl
  | cons node _ ih => rw [List.map_cons, List.map_cons, ih, node.path, node.className]

/-- The table of a style has an entry for each scope below the root, with the class name made of the
names on its path. -/
theorem modifiers_of_outline {style : Style} (outline : List.Forall₂
    (conventions.Outlines style.name) style.spec.scopes style.root.preorder) :
    style.modifiers = (style.spec.scopesBelow []).map fun scope =>
      (scope.1, modifierClass conventions.separator style.name scope.1) := by
  cases walk : style.root.preorder with
  | nil => simp [walk, Spec.scopes] at outline
  | cons root nodes =>
    rw [walk, Spec.scopes, List.forall₂_cons] at outline
    obtain ⟨first, below⟩ := outline
    have paths : nodes.map (·.path) = (style.spec.scopesBelow []).map (·.1) :=
      map_outline below fun path _ => path
    have named (node : ScopeRule) (member : node ∈ nodes) : (!node.path.isEmpty) = true := by
      have within : node.path ∈ nodes.map (·.path) := List.mem_map_of_mem member
      rw [paths] at within
      obtain ⟨scope, inside, same⟩ := List.mem_map.mp within
      have proper := Spec.path_ne_nil_of_scopesBelow inside
      simpa [← same] using proper
    have rootPath : (!root.path.isEmpty) = false := by simp [first.path]
    rw [Style.modifiers, walk, List.filter_cons, rootPath, List.filter_eq_self.mpr named]
    exact map_outline below Prod.mk

theorem modifiers_of_compiled {source : NameSource} {given baseName : Value} {style : Style}
    (compiled : (conventions.compile source given baseName).1 = .ok style) :
    style.modifiers = (style.spec.scopesBelow []).map fun scope =>
      (scope.1, modifierClass conventions.separator style.name scope.1) :=
  modifiers_of_outline (outline_of_compiled compiled).2

/-- **A style is its checked spec laid out.** The walk of a compiled tree meets the scopes of the
checked spec depth first, each with its path, and there is one rule for each. The table of class names
has one entry for each scope below the root. No path is met twice, and that of the enclosing scope is
met before. Each rule declares what the leaves directly in its scope do, and nothing else but the box
sizing, which encloses the declarations at the root. -/
theorem compile_lays_out_snapshot {source : NameSource} {given baseName : Value} {style : Style}
    (compiled : (conventions.compile source given baseName).1 = .ok style) :
    given.snapshot [] = .ok style.spec ∧
      style.root.preorder.map (·.path) = style.spec.scopes.map (·.1) ∧
      style.rules.length = 1 + (style.spec.scopesBelow []).length ∧
      style.rules = style.root.preorder.map (·.rule.css) ∧
      style.modifiers = (style.spec.scopesBelow []).map (fun scope =>
        (scope.1, style.name ++ String.join (scope.1.map (conventions.separator ++ ·)))) ∧
      (given.hasDistinctKeys = true → (style.spec.scopes.map (·.1)).Nodup) ∧
      (∀ before parent segment after,
        style.spec.scopes.map (·.1) = before ++ (parent ++ [segment]) :: after → parent ∈ before) ∧
      List.Forall₂ (fun scope node => ∃ declared,
          scope.2.declarations conventions.unit = .ok declared ∧
            node.rule.declarations = enclosed scope.1 declared)
        style.spec.scopes style.root.preorder := by
  obtain ⟨passed, outline⟩ := outline_of_compiled compiled
  refine ⟨passed, map_outline outline fun path _ => path, ?_, rfl,
    modifiers_of_compiled compiled, fun distinct => ?_, fun before parent segment after split => ?_,
    outline.imp fun _ _ node => node.declarations⟩
  · rw [Style.rules, List.length_map, ← outline.length_eq, Spec.scopes, List.length_cons, Nat.add_comm]
  · obtain ⟨spec, read, checked⟩ := Value.spec?_of_snapshot passed
    simp only [Value.hasDistinctKeys, read] at distinct
    rw [← Spec.hasDistinctKeys_of_snapshot checked] at distinct
    exact Spec.nodup_paths_of_scopes distinct
  · rw [Spec.scopes, List.map_cons] at split
    cases before with
    | nil => simp at split
    | cons first before =>
      obtain ⟨rfl, others⟩ := List.cons.inj split
      rcases Spec.parent_before_of_scopesBelow others with root | earlier
      · simp [root]
      · simp [earlier]

/-- Leaves before, between and after scopes, and an empty scope in another. -/
private def interleavedSpec : Value :=
  .map [(.text "color", .text "red"),
    (.text "on", .map [(.text "hover", .map []), (.text "width", .int 1)]),
    (.text "margin", .list [.int 1, .int 2]), (.text "off", .map []), (.text "height", .int 3)]

theorem compile_lays_out_snapshot_of_interleaved :
    ∃ style, (Conventions.compile {} .fresh interleavedSpec (.text "box")).1 = .ok style ∧
      style.root.preorder.map (·.path) = style.spec.scopes.map (·.1) ∧
      (style.spec.scopes.map (·.1)).Nodup ∧
      style.modifiers = (style.spec.scopesBelow []).map (fun scope =>
        (scope.1, style.name ++ String.join (scope.1.map ("--" ++ ·)))) := by
  have runs : (Conventions.compile {} .fresh interleavedSpec (.text "box")).1.isOk = true := by
    decide +kernel
  have distinct : interleavedSpec.hasDistinctKeys = true := by decide
  obtain ⟨style, made⟩ := exists_of_isOk runs
  obtain ⟨_, paths, _, _, table, once, _⟩ := compile_lays_out_snapshot made
  exact ⟨style, made, paths, once distinct, table⟩

end Conventions

end ScopedStyle
