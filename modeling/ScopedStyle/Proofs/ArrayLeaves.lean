import Mathlib.Data.List.Forall2
import ScopedStyle.Proofs.LastDeclarations

/-! How an array is rendered, item by item. It has declarations exactly if each of its items stands for a
text or a finite number, and then one for each item; only an empty array has one more. Otherwise it is
refused as an array of nothing but its first bad item is, and a single value as an array of nothing else. -/
namespace ScopedStyle

namespace Value

/-- Whether a value is an array: a list or a tuple, or built on one, that does not convert. -/
def isArray (value : Value) : Bool :=
  match value.content with
  | .list _ | .tuple _ => !value.converts
  | _ => false

/-- Whether a value is a text or a finite number, be it one of an author's kind. -/
def isFiniteScalar (value : Value) : Bool :=
  match value.content with
  | .text _ | .int _ => true
  | .float number => number.isFinite
  | _ => false

/-- The text or finite number that an item of an array stands for: what its conversion answers with if it
has one, whatever else it is, and else itself. Answers are not converted again. A kind stands for none. -/
def standsFor? : Value → Option Value
  | .type _ _ => none
  | value =>
    match value.conversion with
    | .returns result => if result.isFiniteScalar then some result else none
    | .absent => if value.isFiniteScalar then some value else none
    | .raises _ _ | .attribute _ => none

/-- Whether an item of an array can be rendered. -/
def isRenderable (value : Value) : Bool :=
  value.standsFor?.isSome

/-- The first item of an array that cannot be rendered. -/
def firstBad? (array : Value) : Option Value :=
  array.items.find? fun item => !item.isRenderable

/-- A declaration for a property that renders what an item of an array stands for. -/
def IsRenderedBy (unit property : String) (value : Value) (declaration : Declaration) : Prop :=
  ∃ scalar, value.standsFor? = some scalar ∧
    scalar.rendered unit = .ok declaration.value ∧ declaration.property = hyphenated property

variable {unit property : String} {value scalar alone : Value} {declaration : Declaration}

/-! ## Single values -/

theorem standsFor?_eq_some :
    value.standsFor? = some scalar ↔ scalar.isFiniteScalar = true ∧
      ((value.conversion = .absent ∧ value = scalar) ∨ value.conversion = .returns scalar) := by
  unfold standsFor?
  split
  · simp only [reduceCtorEq, conversion, traits?, true_and, or_false, false_iff, not_and]
    rintro proper rfl
    cases proper
  · cases way : value.conversion with
    | absent =>
      simp only [Option.ite_none_right_eq_some, Option.some.injEq, true_and, reduceCtorEq, or_false]
      exact and_congr_left (by rintro rfl; rfl)
    | returns result =>
      simp only [Option.ite_none_right_eq_some, Option.some.injEq, reduceCtorEq, false_and, false_or,
        Conversion.returns.injEq]
      exact and_congr_left (by rintro rfl; rfl)
    | _ => simp

/-- Of the scalars, the finite ones are those that have a rendering. -/
theorem isFiniteScalar_iff :
    value.isFiniteScalar = true ↔
      value.isScalar = true ∧ ∃ text, value.rendered unit = .ok text := by
  cases held : value.content with
  | float number =>
    simp only [isFiniteScalar, isScalar, plainShape?, rendered, held]
    cases number.isFinite with
    | true => cases number.integer? <;> simp
    | false => simp
  | _ => simp [isFiniteScalar, isScalar, plainShape?, rendered, held]

/-- The declarations of a single value are those that render it. -/
theorem declared_eq_ok :
    value.declared unit property = .ok declaration ↔
      value.IsRenderedBy unit property declaration := by
  simp only [declared, bind_eq_ok, scalar_eq_ok, IsRenderedBy, standsFor?_eq_some]
  constructor
  · rintro ⟨scalar, ⟨isScalar, own⟩, text, rendered, same⟩
    cases same
    exact ⟨scalar, ⟨isFiniteScalar_iff.mpr ⟨isScalar, text, rendered⟩, own⟩, rendered, rfl⟩
  · rintro ⟨scalar, ⟨finite, own⟩, rendered, same⟩
    obtain ⟨isScalar, _⟩ := (@isFiniteScalar_iff unit _).mp finite
    exact ⟨scalar, ⟨isScalar, own⟩, declaration.value, rendered, by rw [← same]⟩

theorem isRenderable_iff :
    value.isRenderable = true ↔ ∃ declaration, value.declared unit property = .ok declaration := by
  simp only [declared_eq_ok, isRenderable, Option.isSome_iff_exists]
  constructor
  · rintro ⟨scalar, stands⟩
    obtain ⟨finite, _⟩ := standsFor?_eq_some.mp stands
    obtain ⟨_, text, rendered⟩ := (@isFiniteScalar_iff unit _).mp finite
    exact ⟨⟨hyphenated property, text⟩, scalar, stands, rendered, rfl⟩
  · rintro ⟨_, scalar, stands, _⟩
    exact ⟨scalar, stands⟩

/-- What is not an array, nor a scope of its own, declares what it does as an item of an array. -/
theorem declarations_of_single (single : value.shape property ≠ .ok .array)
    (leaf : value.shape property ≠ .ok .nested) :
    value.declarations unit property =
      (value.declared unit property).bind fun declaration => .ok [declaration] := by
  unfold declarations
  cases known : value.shape property with
  | error fault =>
    simp only [declared, scalar, known, bind, Except.bind]
  | ok shape =>
    cases shape with
    | scalar | convertible => rfl
    | array => exact absurd known single
    | nested => exact absurd known leaf

/-! ## Arrays -/

section Arrays

variable {array : Value}

theorem shape_of_isArray (isArray : array.isArray = true) (property : String) :
    array.shape property = .ok .array := by
  refine shape_eq_ok.mpr (.inl ?_)
  cases held : array.content with
  | list items | tuple items =>
    have plain : array.converts = false := by
      simpa only [Value.isArray, held, Bool.not_eq_true'] using isArray
    exact ⟨converts_eq_false.mp plain, by simp only [plainShape?, held]⟩
  | _ => simp [Value.isArray, held] at isArray

theorem declarations_of_no_items (isArray : array.isArray = true) (empty : array.items = []) :
    array.declarations unit property = .ok [⟨hyphenated property, ""⟩] := by
  simp only [declarations, shape_of_isArray isArray, empty]
  rfl

/-- An array that is not empty declares its items in turn. -/
theorem declarations_of_items (isArray : array.isArray = true) (given : array.items ≠ []) :
    array.declarations unit property = array.items.mapM (declared unit property) := by
  simp only [declarations, shape_of_isArray isArray]
  rfl

theorem declarations_of_alone (isArray : alone.isArray = true) (only : alone.items = [value]) :
    alone.declarations unit property =
      (value.declared unit property).bind fun declaration => .ok [declaration] := by
  rw [declarations_of_items isArray (by simp [only]), only, List.mapM_cons]
  rfl

/-- An array has declarations exactly if each of its items can be rendered. -/
theorem declarations_isOk_iff (isArray : array.isArray = true) :
    (∃ declared, array.declarations unit property = .ok declared) ↔
      ∀ item ∈ array.items, item.isRenderable = true := by
  by_cases empty : array.items = []
  · simp [declarations_of_no_items isArray empty, empty]
  · simp only [declarations_of_items isArray empty, mapM_isOk, @isRenderable_iff unit property]

/-- There is one declaration for each item of an array, and it renders the item. -/
theorem rendered_of_declarations (isArray : array.isArray = true) (given : array.items ≠ [])
    {declared : List Declaration} (ran : array.declarations unit property = .ok declared) :
    List.Forall₂ (IsRenderedBy unit property) array.items declared := by
  rw [declarations_of_items isArray given, mapM_eq_ok, ← List.forall₂_eq_eq_eq,
    List.forall₂_map_left_iff, List.forall₂_map_right_iff] at ran
  exact ran.imp fun _ _ => declared_eq_ok.mp

/-- What comes behind the first bad item of an array does not matter. -/
theorem declarations_of_firstBad? {bad : Value} (isArray : array.isArray = true)
    (first : array.firstBad? = some bad) :
    ∃ fault, bad.declared unit property = .error fault ∧
      array.declarations unit property = .error fault := by
  obtain ⟨refused, before, after, split, good⟩ := List.find?_eq_some_iff_append.mp first
  simp only [Bool.not_eq_true', Bool.not_not] at refused good
  cases ran : bad.declared unit property with
  | ok declaration =>
    rw [isRenderable_iff.mpr ⟨declaration, ran⟩] at refused
    cases refused
  | error fault =>
    refine ⟨fault, rfl, ?_⟩
    rw [declarations_of_items isArray (by simp [split]), mapM_eq_error]
    exact ⟨before, bad, after, split, fun item member => isRenderable_iff.mp (good item member), ran⟩

end Arrays

/-- **Arrays are rendered item by item, up to the first bad one.** For each property and unit, an array has
declarations exactly if all its items can be rendered: one for each item, in their order, and with an empty
text the only one of an empty array. Otherwise the fault is that of an array of just the first bad item,
whatever comes behind it. Two arrays that are not empty and have declarations have these one after the
other when put together, and a value that is neither array nor scope fares as the only item of an array. -/
theorem arrays_render_item_by_item (unit property : String) :
    (∀ array : Value, array.isArray = true →
      ((∃ declared, array.declarations unit property = .ok declared) ↔
        ∀ item ∈ array.items, item.isRenderable = true) ∧
      (∀ declared, array.declarations unit property = .ok declared →
        declared.length = max 1 array.items.length ∧
        (∀ declaration ∈ declared, declaration.property = hyphenated property) ∧
        (array.items = [] → declared = [⟨hyphenated property, ""⟩]) ∧
        (array.items ≠ [] →
          List.Forall₂ (IsRenderedBy unit property) array.items declared)) ∧
      ∀ bad, array.firstBad? = some bad →
        ∃ fault, array.declarations unit property = .error fault ∧
          ∀ alone : Value, alone.isArray = true → alone.items = [bad] →
            alone.declarations unit property = .error fault) ∧
    (∀ first second whole : Value, first.isArray = true → second.isArray = true →
      whole.isArray = true → first.items ≠ [] → second.items ≠ [] →
      whole.items = first.items ++ second.items →
      ∀ own others, first.declarations unit property = .ok own →
        second.declarations unit property = .ok others →
        whole.declarations unit property = .ok (own ++ others)) ∧
    ∀ value alone : Value, value.shape property ≠ .ok .array → value.shape property ≠ .ok .nested →
      alone.isArray = true → alone.items = [value] →
      alone.declarations unit property = value.declarations unit property := by
  refine ⟨fun array isArray => ⟨declarations_isOk_iff isArray, fun declared ran => ?_, ?_⟩, ?_, ?_⟩
  · obtain ⟨_, alike⟩ := property_of_declarations ran
    by_cases empty : array.items = []
    · rw [declarations_of_no_items isArray empty] at ran
      cases ran
      exact ⟨by simp [empty], alike, fun _ => rfl, fun given => absurd empty given⟩
    · have each := rendered_of_declarations isArray empty ran
      have some : 0 < array.items.length := List.length_pos_iff.mpr empty
      have long : declared.length = max 1 array.items.length := by
        have same := each.length_eq
        omega
      exact ⟨long, alike, fun none => absurd none empty, fun _ => each⟩
  · intro bad first
    obtain ⟨fault, refused, failed⟩ := declarations_of_firstBad? isArray first
    refine ⟨fault, failed, fun alone isArray only => ?_⟩
    rw [declarations_of_alone isArray only, refused]
    rfl
  · intro first second whole isFirst isSecond isWhole before behind joined own others ran further
    rw [declarations_of_items isFirst before] at ran
    rw [declarations_of_items isSecond behind] at further
    rw [declarations_of_items isWhole (by simp [joined, before]), joined, List.mapM_append, ran,
      further]
    rfl
  · intro value alone single leaf isArray only
    rw [declarations_of_alone isArray only, declarations_of_single single leaf]

/-- A text of an author's kind that converts to a number. -/
private def namedSize : Value := .derived ⟨0, "Size", .returns (.int 2)⟩ (.text "large")

/-- An array with such a text, the same twice over, one whose second and third item are bad, and the text
on its own. -/
theorem arrays_render_item_by_item_of_sizes :
    (∃ declared, (Value.list [.text "auto", namedSize]).declarations "px" "gridArea" = .ok declared ∧
      List.Forall₂ (IsRenderedBy "px" "gridArea") [.text "auto", namedSize] declared ∧
      (Value.tuple [.text "auto", namedSize, .text "auto", namedSize]).declarations "px" "gridArea" =
        .ok (declared ++ declared)) ∧
    (∃ fault, (Value.list [namedSize, .bool true, .null]).declarations "px" "gridArea" =
        .error fault ∧
      (Value.tuple [.bool true]).declarations "px" "gridArea" = .error fault) ∧
    (Value.list [namedSize]).declarations "px" "gridArea" =
      namedSize.declarations "px" "gridArea" := by
  obtain ⟨each, joined, only⟩ := arrays_render_item_by_item "px" "gridArea"
  obtain ⟨succeeds, rendered, _⟩ := each (.list [.text "auto", namedSize]) rfl
  obtain ⟨_, _, firstBad⟩ := each (.list [namedSize, .bool true, .null]) rfl
  obtain ⟨declared, ran⟩ := succeeds.mpr (by decide)
  obtain ⟨fault, failed, alone⟩ := firstBad (.bool true) rfl
  have given : (Value.list [.text "auto", namedSize]).items ≠ [] := List.cons_ne_nil _ _
  have converts : namedSize.shape "gridArea" = .ok .convertible := rfl
  refine ⟨⟨declared, ran, (rendered declared ran).2.2.2 given, ?_⟩, ⟨fault, failed, ?_⟩, ?_⟩
  · exact joined _ _ _ rfl rfl rfl given given rfl _ _ ran ran
  · exact alone (.tuple [.bool true]) rfl rfl
  · exact only namedSize _ (by simp [converts]) (by simp [converts]) rfl rfl

end Value

end ScopedStyle
