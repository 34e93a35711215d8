import ScopedStyle.Override
import ScopedStyle.Proofs.CompiledOutline
import ScopedStyle.Proofs.RootNames

/-! What the selectors of a style have to do with the class attributes that it gives to elements. A
selector is a class for some first part of a path, and native selectors for the rest; each such part is
the path of a variant itself, so the table of the style has a class for it, and this is the class that
an element gets when the part is active. -/
namespace ScopedStyle

namespace Style

/-- The classes that an element with the given flags has. -/
def activeNames (style : Style) (flags : Flags) : List String :=
  style.name ::
    (style.modifiers.filter fun variant => variant.1.all flags.isSet).map (·.2)

/-- The class at a path: the root class, or the one that the table has for the variant. -/
def classAt? (style : Style) (path : List String) : Option String :=
  if path.isEmpty then some style.name else style.modifiers.lookup path

theorem classAttribute_eq (style : Style) (flags : Flags) :
    style.classAttribute flags = String.intercalate " " (style.activeNames flags) := rfl

end Style

/-- The flags that set some segments and no others. -/
def Flags.raised (segments : List String) : Flags :=
  segments.map fun segment => (.text segment, .bool true)

theorem Flags.isSet_raised {segments : List String} {segment : String}
    (member : segment ∈ segments) : (raised segments).isSet segment = true := by
  induction segments with
  | nil => cases member
  | cons first rest ih =>
    have same : ((.text segment : Value) == .text first) = (first == segment) := rfl
    by_cases met : first = segment
    · rw [isSet, raised, List.map_cons, List.lookup_cons, same, beq_iff_eq.mpr met]
      rfl
    · have later := ih ((List.mem_cons.mp member).resolve_left fun equal => met equal.symm)
      rw [isSet, raised, List.map_cons, List.lookup_cons, same, beq_eq_false_iff_ne.mpr met]
      exact later

/-! ## Selectors of a path -/

namespace PseudoClasses

variable {table : PseudoClasses} {separator root selector : String} {path : List String}

/-- The selectors beside the first one split the path, from the front on, wherever all the segments
behind the split are recognized. -/
theorem splitSelectors_eq (table : PseudoClasses) (separator root : String) (path : List String) :
    table.splitSelectors separator root path =
      (List.range path.length).filterMap fun split =>
        (table.nativeSuffix? (path.drop split)).map fun natives =>
          "." ++ modifierClass separator root (path.take split) ++ natives := by
  induction path generalizing root with
  | nil => rfl
  | cons segment rest ih =>
    have further : table.splitSelectors separator (root ++ separator ++ segment) rest =
        ((List.range rest.length).map Nat.succ).filterMap fun split =>
          (table.nativeSuffix? ((segment :: rest).drop split)).map fun natives =>
            "." ++ modifierClass separator root ((segment :: rest).take split) ++ natives := by
      rw [ih, List.filterMap_map]
      simp only [Function.comp_def, List.drop_succ_cons, List.take_succ_cons, modifierClass_cons]
    rw [splitSelectors, further, List.length_cons, List.range_succ_eq_map, List.filterMap_cons]
    cases natives : table.nativeSuffix? (segment :: rest) with
    | none => simp [natives]
    | some suffix => simp [natives]

/-- The selectors of a variant are those of the splits of its path, the whole path included. -/
theorem mem_variantSelectors :
    selector ∈ table.variantSelectors separator root path ↔
      ∃ split ≤ path.length, ∃ natives, table.nativeSuffix? (path.drop split) = some natives ∧
        "." ++ modifierClass separator root (path.take split) ++ natives = selector := by
  rw [variantSelectors, List.mem_eraseDups, List.mem_cons, splitSelectors_eq, List.mem_filterMap]
  simp only [List.mem_range, Option.map_eq_some_iff]
  constructor
  · rintro (rfl | ⟨split, within, natives, recognized, same⟩)
    · refine ⟨path.length, Nat.le_refl _, "", ?_, ?_⟩
      · rw [List.drop_length]
        rfl
      · rw [List.take_length, String.append_empty]
    · exact ⟨split, Nat.le_of_lt within, natives, recognized, same⟩
  · rintro ⟨split, within, natives, recognized, same⟩
    rcases Nat.lt_or_eq_of_le within with before | rfl
    · exact .inr ⟨split, before, natives, recognized, same⟩
    · rw [List.drop_length] at recognized
      cases recognized
      rw [List.take_length, String.append_empty] at same
      exact .inl same.symm

/-- The selector with the class of the whole path comes first. -/
theorem head?_variantSelectors (table : PseudoClasses) (separator root : String)
    (path : List String) :
    (table.variantSelectors separator root path).head? =
      some ("." ++ modifierClass separator root path) := by
  rw [variantSelectors, List.eraseDups_cons, List.head?_cons]

end PseudoClasses

/-! ## Styles that are made -/

/-- A style that a compiler makes, by compiling or by overriding. -/
inductive Conventions.Makes (conventions : Conventions) (style : Style) : Prop where
  | compiled (ran : (conventions.compile source given baseName).1 = .ok style)
  | overridden (ran : (conventions.override source base patch baseName).1 = .ok style)

namespace Conventions

variable {conventions : Conventions} {style : Style}

private theorem snapshot_of_checked {source : NameSource}
    {input : Except Fault (String × Spec Key)}
    (ran : (conventions.compileChecked source input).1 = .ok style) :
    conventions.compileSnapshot style.name style.baseName style.spec = .ok style := by
  cases input with
  | error fault => cases ran
  | ok checked =>
    have made := ran
    obtain ⟨entries, _, rfl⟩ := compileSnapshot_eq_ok.mp made
    exact ran

/-- However a style was made, it is what its checked spec compiles to below its root class. -/
theorem Makes.snapshot (made : conventions.Makes style) :
    conventions.compileSnapshot style.name style.baseName style.spec = .ok style := by
  cases made with
  | compiled ran => exact snapshot_of_checked ran
  | overridden ran =>
    unfold override at ran
    split at ran
    · cases ran
    · exact snapshot_of_checked ran

/-! ## Nodes -/

/-- The nodes that entries are compiled to have the selectors of their paths. -/
theorem selectors_of_entries {root : String} {path : List Key} {spec : Spec Key}
    {entries : CompiledEntries} (ran : conventions.compileEntries root path spec = .ok entries) :
    ∀ node ∈ forestPreorder entries.children, node.rule.selectors =
      conventions.pseudoClasses.variantSelectors conventions.separator root node.path := by
  induction spec generalizing path entries with
  | nil =>
    cases ran
    exact fun node member => absurd member List.not_mem_nil
  | leaf key value rest ih =>
    obtain ⟨own, others, _, further, rfl⟩ := compileEntries_leaf_eq_ok.mp ran
    exact fun node member => ih further node member
  | scope key traits inner rest ihInner ih =>
    obtain ⟨_, inside, others, ranInner, further, rfl⟩ := compileEntries_scope_eq_ok.mp ran
    intro node member
    rcases List.mem_append.mp member with within | after
    · rcases List.mem_cons.mp within with rfl | below
      · rfl
      · exact ihInner ranInner node below
    · exact ih further node after

/-- What is met on the walk is a scope of the spec. -/
theorem scope_of_outline {root : String} {scopes : List (List String × Spec Key)}
    {nodes : List ScopeRule} (outline : List.Forall₂ (conventions.Outlines root) scopes nodes)
    {node : ScopeRule} (member : node ∈ nodes) :
    ∃ scope ∈ scopes, conventions.Outlines root scope node := by
  induction outline with
  | nil => cases member
  | cons outlines _ ih =>
    rcases List.mem_cons.mp member with rfl | after
    · exact ⟨_, List.mem_cons_self, outlines⟩
    · obtain ⟨scope, within, outlines⟩ := ih after
      exact ⟨scope, List.mem_cons_of_mem _ within, outlines⟩

variable {path : List String}

/-- A node of a style has the path of a scope, and the class name and the selectors of its path. -/
theorem Makes.node_of_scope (made : conventions.Makes style) {node : ScopeRule}
    (member : node ∈ style.root.preorder) :
    node.path ∈ style.spec.scopes.map (·.1) ∧
      node.className = modifierClass conventions.separator style.name node.path ∧
      node.rule.selectors =
        conventions.pseudoClasses.variantSelectors conventions.separator style.name node.path := by
  obtain ⟨scope, within, outlines⟩ := scope_of_outline (outline_of_snapshot made.snapshot) member
  refine ⟨?_, ?_, ?_⟩
  · rw [outlines.path]
    exact List.mem_map_of_mem within
  · rw [outlines.path, outlines.className]
  · obtain ⟨entries, ran, same⟩ := compileSnapshot_eq_ok.mp made.snapshot
    rw [← same] at member
    rcases List.mem_cons.mp member with rfl | below
    · rw [PseudoClasses.variantSelectors, List.eraseDups_cons]
      simp [PseudoClasses.splitSelectors]
    · exact selectors_of_entries ran node below

/-- The first part of a path to a scope is the path to one. -/
private theorem take_mem_scopes {spec : Spec Key} (member : path ∈ spec.scopes.map (·.1))
    (depth : Nat) : path.take depth ∈ spec.scopes.map (·.1) := by
  rw [Spec.scopes, List.map_cons, List.mem_cons] at member ⊢
  rcases Nat.eq_zero_or_pos depth with rfl | positive
  · exact .inl List.take_zero
  · rcases member with rfl | below
    · exact .inl List.take_nil
    · exact .inr (Spec.take_mem_scopesBelow below positive)

/-- The table of a style has the paths of the scopes below the root, each with the class name that is
made of it. -/
theorem Makes.modifiers (made : conventions.Makes style) :
    style.modifiers = ((style.spec.scopesBelow []).map (·.1)).map fun path =>
      (path, modifierClass conventions.separator style.name path) := by
  rw [modifiers_of_outline (outline_of_snapshot made.snapshot), List.map_map]
  rfl

/-- The class at the path of a scope is the one that is made of the path. -/
theorem Makes.classAt? (made : conventions.Makes style)
    (member : path ∈ style.spec.scopes.map (·.1)) :
    style.classAt? path = some (modifierClass conventions.separator style.name path) := by
  cases path with
  | nil => rw [modifierClass_nil]; rfl
  | cons segment rest =>
    have below : segment :: rest ∈ (style.spec.scopesBelow []).map (·.1) := by
      simpa [Spec.scopes] using member
    rw [Style.classAt?, made.modifiers, List.lookup_graph _ below]
    rfl

/-- The class at the path of a scope is on an element where all the segments of the path are set. -/
theorem Makes.active (made : conventions.Makes style)
    (member : path ∈ style.spec.scopes.map (·.1)) {flags : Flags}
    (set : path.all flags.isSet = true) :
    modifierClass conventions.separator style.name path ∈ style.activeNames flags := by
  rw [Spec.scopes, List.map_cons, List.mem_cons] at member
  rcases member with rfl | below
  · rw [modifierClass_nil]
    exact List.mem_cons_self
  · apply List.mem_cons_of_mem
    rw [made.modifiers]
    apply List.mem_map.mpr
    exact ⟨_, List.mem_filter.mpr ⟨List.mem_map_of_mem below, set⟩, rfl⟩

/-- **Selectors and class attributes agree.** At every node of a style that is made, and wherever its
path can be split so that all segments behind the split are recognized, there is a selector with a class
for the segments before the split: the root class if there are none, and otherwise the one that the
table has for them. Elements on which all these segments are set have this class. No selector is of
another form, so each begins with the root class and has a class that some element can have. And all
classes that an element has, but for the root class, are those in the first selectors of the nodes that
are active on it. -/
theorem selectors_agree_with_class_attributes (made : conventions.Makes style) :
    (∀ node ∈ style.root.preorder, ∀ split ≤ node.path.length, ∀ natives,
      conventions.pseudoClasses.nativeSuffix? (node.path.drop split) = some natives →
      ∃ name, name = modifierClass conventions.separator style.name (node.path.take split) ∧
        style.classAt? (node.path.take split) = some name ∧
        "." ++ name ++ natives ∈ node.rule.selectors ∧
        ∀ flags : Flags, (node.path.take split).all flags.isSet = true →
          name ∈ style.activeNames flags) ∧
    (∀ node ∈ style.root.preorder, ∀ selector ∈ node.rule.selectors,
      (∃ split ≤ node.path.length, ∃ name natives,
        style.classAt? (node.path.take split) = some name ∧
        conventions.pseudoClasses.nativeSuffix? (node.path.drop split) = some natives ∧
        "." ++ name ++ natives = selector ∧ ∃ flags, name ∈ style.activeNames flags) ∧
      ∃ rest, "." ++ style.name ++ rest = selector) ∧
    ∀ flags, style.classAttribute flags = String.intercalate " " (style.activeNames flags) ∧
      ∀ name ∈ style.activeNames flags, name = style.name ∨
        ∃ node ∈ style.root.preorder, node.path ≠ [] ∧ node.path.all flags.isSet = true ∧
          node.rule.selectors.head? = some ("." ++ name) := by
  refine ⟨?_, ?_, ?_⟩
  · intro node member split within natives recognized
    obtain ⟨scope, _, selectors⟩ := made.node_of_scope member
    have part := take_mem_scopes scope split
    refine ⟨_, rfl, made.classAt? part, ?_, fun flags set => made.active part set⟩
    rw [selectors]
    exact PseudoClasses.mem_variantSelectors.mpr ⟨split, within, natives, recognized, rfl⟩
  · intro node member selector among
    obtain ⟨scope, _, selectors⟩ := made.node_of_scope member
    rw [selectors] at among
    obtain ⟨split, within, natives, recognized, rfl⟩ := PseudoClasses.mem_variantSelectors.mp among
    have part := take_mem_scopes scope split
    have set : (node.path.take split).all (Flags.raised (node.path.take split)).isSet = true :=
      List.all_eq_true.mpr fun _ member => Flags.isSet_raised member
    refine ⟨⟨split, within, _, natives, made.classAt? part, recognized, rfl, _,
      made.active part set⟩, ?_⟩
    rw [modifierClass_root]
    exact ⟨_, by rw [String.append_assoc, String.append_assoc, String.append_assoc]⟩
  · intro flags
    refine ⟨style.classAttribute_eq flags, fun name joined => ?_⟩
    rcases List.mem_cons.mp joined with root | variant
    · exact .inl root
    · obtain ⟨variant, active, rfl⟩ := List.mem_map.mp variant
      obtain ⟨listed, set⟩ := List.mem_filter.mp active
      obtain ⟨node, walked, rfl⟩ := List.mem_map.mp listed
      obtain ⟨member, below⟩ := List.mem_filter.mp walked
      obtain ⟨_, className, selectors⟩ := made.node_of_scope member
      refine .inr ⟨node, member, by simpa using below, set, ?_⟩
      rw [selectors, PseudoClasses.head?_variantSelectors, className]

/-- A variant with two pseudo-classes in it, of which the patch brings the second. -/
private def layeredResult : Except Fault Style :=
  (override {} .fresh
    (.spec (.map [(.text "on", .map [(.text "firstChild", .map [(.text "width", .int 1)])])]))
    (.map [(.text "on", .map [(.text "firstChild", .map [(.text "hover", .map [])])])])
    (.text "a")).1

/-- The selector that splits behind the first segment has the class that is on when this is set. -/
theorem selectors_agree_with_class_attributes_of_layered :
    ∃ style node name, ({} : Conventions).Makes style ∧ node ∈ style.root.preorder ∧
      node.path = ["on", "firstChild", "hover"] ∧ style.classAt? ["on"] = some name ∧
      "." ++ name ++ ":first-child:hover" ∈ node.rule.selectors ∧
      name ∈ style.activeNames [(.text "on", .int 1)] := by
  have runs : layeredResult.isOk = true := by decide +kernel
  obtain ⟨style, ran⟩ := exists_of_isOk runs
  have made : ({} : Conventions).Makes style := .overridden ran
  have paths : layeredResult.toOption.map (fun style => style.root.preorder.map (·.path)) =
      some [[], ["on"], ["on", "firstChild"], ["on", "firstChild", "hover"]] := by decide +kernel
  rw [ran] at paths
  have walk : style.root.preorder.map (·.path) =
      [[], ["on"], ["on", "firstChild"], ["on", "firstChild", "hover"]] := Option.some.inj paths
  have walked : ["on", "firstChild", "hover"] ∈ style.root.preorder.map (·.path) := by simp [walk]
  obtain ⟨node, member, path⟩ := List.mem_map.mp walked
  have recognized : ({} : Conventions).pseudoClasses.nativeSuffix? (node.path.drop 1) =
      some ":first-child:hover" := by
    rw [path]
    decide +kernel
  have within : 1 ≤ node.path.length := by simp [path]
  obtain ⟨name, _, listed, selector, active⟩ :=
    (selectors_agree_with_class_attributes made).1 node member 1 within _ recognized
  rw [path] at listed active
  exact ⟨style, node, name, made, member, path, listed, selector, active _ (by decide)⟩

end Conventions

end ScopedStyle
