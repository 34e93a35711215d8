import ScopedStyle.Compilation

/-! What of a compiled style depends on the root class that is issued for it. Class names begin with
the root class and selectors with a dot and the root class; nothing else has any part of it, and
whether a compilation succeeds does not depend on it either. -/
namespace ScopedStyle

/-- A compiled scope below a root class, made from one in which the class name and the selectors are
only what follows the root class. -/
def ScopeRule.onRoot (root : String) (scope : ScopeRule) : ScopeRule where
  path := scope.path
  className := root ++ scope.className
  rule := {
    selectors := scope.rule.selectors.map (("." ++ root) ++ ·)
    declarations := scope.rule.declarations }

mutual

/-- A tree of such scopes below a root class. -/
def RuleTree.onRoot (root : String) : RuleTree → RuleTree
  | ⟨scope, children⟩ => ⟨scope.onRoot root, forestOnRoot root children⟩

/-- Several such trees below a root class. -/
def forestOnRoot (root : String) : List RuleTree → List RuleTree
  | [] => []
  | node :: rest => node.onRoot root :: forestOnRoot root rest

end

/-- Styles that differ in nothing but the root classes that were issued for them. -/
def Style.AgreesWith (style other : Style) : Prop :=
  style.baseName = other.baseName ∧ style.spec = other.spec ∧
    ∃ shape : RuleTree,
      style.root = shape.onRoot style.name ∧ other.root = shape.onRoot other.name

theorem modifierClass_root (separator root : String) (path : List String) :
    modifierClass separator root path = root ++ modifierClass separator "" path := by
  simp [modifierClass]

/-! ## Selectors -/

private theorem eraseDups_map {α β : Type} [BEq α] [LawfulBEq α] [BEq β] [LawfulBEq β]
    {f : α → β} (injective : Function.Injective f) :
    ∀ items : List α, (items.map f).eraseDups = items.eraseDups.map f
  | [] => rfl
  | first :: rest => by
    have same (item : α) : (f item == f first) = (item == first) := by
      rw [Bool.eq_iff_iff, beq_iff_eq, beq_iff_eq]
      exact ⟨fun equal => injective equal, congrArg f⟩
    have others : (rest.map f).filter (fun item => !item == f first) =
        (rest.filter fun item => !item == first).map f := by
      simp only [List.filter_map, Function.comp_def, same]
    rw [List.map_cons, List.eraseDups_cons, others, List.eraseDups_cons, List.map_cons,
      eraseDups_map injective (rest.filter fun item => !item == first)]
termination_by items => items.length
decreasing_by exact Nat.lt_succ_of_le (List.length_filter_le _ _)

theorem append_right_injective (start : String) : Function.Injective (start ++ ·) :=
  fun _ _ equal => String.append_right_inj start |>.mp equal

namespace PseudoClasses

private theorem splitSelectors_root (table : PseudoClasses) (separator middle : String)
    (path : List String) :
    ∃ suffixes : List String, ∀ root,
      table.splitSelectors separator (root ++ middle) path = suffixes.map (("." ++ root) ++ ·) := by
  induction path generalizing middle with
  | nil => exact ⟨[], fun _ => rfl⟩
  | cons segment rest ih =>
    obtain ⟨suffixes, further⟩ := ih (middle ++ separator ++ segment)
    have below (root : String) : table.splitSelectors separator
        (root ++ middle ++ separator ++ segment) rest = suffixes.map (("." ++ root) ++ ·) := by
      rw [← further root]
      simp only [String.append_assoc]
    cases natives : table.nativeSuffix? (segment :: rest) with
    | none => exact ⟨suffixes, fun root => by simp only [splitSelectors, natives, below]⟩
    | some suffix =>
      refine ⟨(middle ++ suffix) :: suffixes, fun root => ?_⟩
      simp only [splitSelectors, natives, below, List.map_cons]
      rw [String.append_assoc, String.append_assoc, String.append_assoc]

/-- What follows the root class in the selectors of a variant is the same below every root class, and
so is which of the selectors are dropped because they are written alike. -/
theorem variantSelectors_suffixes (table : PseudoClasses) (separator : String)
    (path : List String) :
    ∃ suffixes : List String, ∀ root,
      ("." ++ modifierClass separator root path) :: table.splitSelectors separator root path =
          suffixes.map (("." ++ root) ++ ·) ∧
        table.variantSelectors separator root path =
          suffixes.eraseDups.map (("." ++ root) ++ ·) := by
  obtain ⟨suffixes, splits⟩ := table.splitSelectors_root separator "" path
  refine ⟨modifierClass separator "" path :: suffixes, fun root => ?_⟩
  have split := splits root
  rw [String.append_empty] at split
  have whole : ("." ++ modifierClass separator root path) ::
      table.splitSelectors separator root path =
        (modifierClass separator "" path :: suffixes).map (("." ++ root) ++ ·) := by
    rw [split, modifierClass_root, ← String.append_assoc, List.map_cons]
  exact ⟨whole, by rw [variantSelectors, whole, eraseDups_map (append_right_injective _)]⟩

theorem variantSelectors_root (table : PseudoClasses) (separator : String) (path : List String) :
    ∃ suffixes : List String, ∀ root,
      table.variantSelectors separator root path = suffixes.map (("." ++ root) ++ ·) := by
  obtain ⟨suffixes, selectors⟩ := table.variantSelectors_suffixes separator path
  exact ⟨suffixes.eraseDups, fun root => (selectors root).2⟩

end PseudoClasses

/-! ## Compiling below a root class -/

namespace Conventions

private theorem variantNode_root (conventions : Conventions) (path : List String)
    (declarations : List Declaration) (children : List RuleTree) :
    ∃ shape : RuleTree, ∀ root,
      conventions.variantNode root path ⟨declarations, forestOnRoot root children⟩ =
        shape.onRoot root := by
  obtain ⟨suffixes, selectors⟩ :=
    conventions.pseudoClasses.variantSelectors_root conventions.separator path
  refine ⟨⟨⟨path, modifierClass conventions.separator "" path, ⟨suffixes, declarations⟩⟩,
    children⟩, fun root => ?_⟩
  simp only [variantNode, RuleTree.onRoot, ScopeRule.onRoot, selectors]
  rw [modifierClass_root]

/-- Compiling entries fails below every root class with the same fault, or gives the same
declarations and trees of the same shape. -/
theorem compileEntries_root (conventions : Conventions) (path : List Key) (spec : Spec Key) :
    (∃ fault, ∀ root, conventions.compileEntries root path spec = .error fault) ∨
      ∃ declarations shapes, ∀ root, conventions.compileEntries root path spec =
        .ok ⟨declarations, forestOnRoot root shapes⟩ := by
  induction spec generalizing path with
  | nil => exact .inr ⟨[], [], fun _ => rfl⟩
  | leaf key value rest ih =>
    simp only [compileEntries]
    cases value.declarations conventions.unit key.text with
    | error fault => exact .inl ⟨fault, fun _ => rfl⟩
    | ok own =>
      obtain ⟨fault, failed⟩ | ⟨declarations, shapes, ran⟩ := ih path
      · exact .inl ⟨fault, fun root => by rw [failed root]; rfl⟩
      · exact .inr ⟨own ++ declarations, shapes, fun root => by rw [ran root]; rfl⟩
  | scope key traits inner rest ihInner ih =>
    simp only [compileEntries]
    cases conventions.checkVariantName path key with
    | error fault => exact .inl ⟨fault, fun _ => rfl⟩
    | ok _ =>
      obtain ⟨fault, failed⟩ | ⟨own, children, ranInner⟩ := ihInner (path ++ [key])
      · exact .inl ⟨fault, fun root => by rw [failed root]; rfl⟩
      obtain ⟨fault, failed⟩ | ⟨declarations, shapes, ran⟩ := ih path
      · exact .inl ⟨fault, fun root => by rw [ranInner root, failed root]; rfl⟩
      obtain ⟨shape, node⟩ :=
        conventions.variantNode_root ((path ++ [key]).map (·.text)) own children
      refine .inr ⟨declarations, shape :: shapes, fun root => ?_⟩
      rw [ranInner root, ran root, forestOnRoot, ← node root]
      rfl

/-- Of one checked spec the same comes below every root class. -/
theorem compileSnapshot_root (conventions : Conventions) (baseName : String) (spec : Spec Key) :
    (∃ fault, ∀ root, conventions.compileSnapshot root baseName spec = .error fault) ∨
      ∃ shape : RuleTree, ∀ root, conventions.compileSnapshot root baseName spec =
        .ok ⟨root, baseName, spec, shape.onRoot root⟩ := by
  obtain ⟨fault, failed⟩ | ⟨declarations, shapes, ran⟩ := conventions.compileEntries_root [] spec
  · exact .inl ⟨fault, fun root => by simp only [compileSnapshot, failed root]; rfl⟩
  · refine .inr ⟨⟨⟨[], "", ⟨[""], boxSizing :: declarations ++ [mozBoxSizing]⟩⟩, shapes⟩,
      fun root => ?_⟩
    simp only [compileSnapshot, ran root, RuleTree.onRoot, ScopeRule.onRoot, List.map_cons,
      List.map_nil, String.append_empty]
    rfl

/-- Whether checked input compiles does not depend on the source of names, and the styles that are
made of it below different root classes agree. -/
theorem compileChecked_agrees {conventions : Conventions} {source : NameSource}
    {input : Except Fault (String × Spec Key)} {style : Style}
    (ran : (conventions.compileChecked source input).1 = .ok style) (other : NameSource) :
    ∃ twin, (conventions.compileChecked other input).1 = .ok twin ∧ style.AgreesWith twin := by
  cases input with
  | error fault => cases ran
  | ok checked =>
    obtain ⟨baseName, spec⟩ := checked
    simp only [compileChecked] at ran ⊢
    obtain ⟨fault, failed⟩ | ⟨shape, compiled⟩ := conventions.compileSnapshot_root baseName spec
    · rw [failed] at ran
      cases ran
    · rw [compiled] at ran ⊢
      cases ran
      exact ⟨_, rfl, rfl, rfl, shape, rfl, rfl⟩

theorem compileChecked_fault {conventions : Conventions} {source : NameSource}
    {input : Except Fault (String × Spec Key)} {fault : Fault}
    (ran : (conventions.compileChecked source input).1 = .error fault) (other : NameSource) :
    (conventions.compileChecked other input).1 = .error fault := by
  cases input with
  | error refused => exact ran
  | ok checked =>
    obtain ⟨baseName, spec⟩ := checked
    simp only [compileChecked] at ran ⊢
    obtain ⟨fault, failed⟩ | ⟨shape, compiled⟩ := conventions.compileSnapshot_root baseName spec
    · rw [failed] at ran ⊢
      exact ran
    · rw [compiled] at ran
      cases ran

end Conventions

end ScopedStyle
