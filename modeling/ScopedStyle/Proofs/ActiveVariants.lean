import Mathlib.Data.List.Induction
import ScopedStyle.Proofs.OverrideFrame
import ScopedStyle.Proofs.TextKeys

/-! Which variants are active under some flags. A variant is if the flags of all the segments of its
path are set, whatever else they are; so variants that enclose an active one are active, too, and stand
before it in the class attribute. -/
namespace ScopedStyle

/-! ## Flags that overrule others -/

/-- Values that are the same are written alike, if they are texts at all. -/
theorem Value.text?_eq_of_beq {value other : Value} {text : String}
    (isText : value.text? = some text) (same : (value == other) = true) :
    other.text? = some text := by
  simpa [Value.text_beq isText] using same

/-- A text does not tell values apart that are the same. -/
theorem Value.text_beq_congr {query first key : Value} {text : String}
    (isText : query.text? = some text) (same : (first == key) = true) :
    (query == first) = (query == key) := by
  rw [text_beq isText, text_beq isText]
  cases known : first.text? with
  | some characters => rw [text?_eq_of_beq known same]
  | none =>
    cases other : key.text? with
    | none => rfl
    | some characters => simp [beq_text other, known] at same

/-- After an assignment a text finds the new value if it is the assigned key, and otherwise what it
found before. -/
theorem Flags.lookup_assign_text (segment : String) (key flag : Value) (flags : Flags) :
    (assign key flag flags).lookup (.text segment) =
      if (.text segment : Value) == key then some flag else flags.lookup (.text segment) := by
  refine lookup_assign (fun first same => ?_) (fun first same => Value.text_beq_congr rfl same) ..
  rw [Value.text_beq (Value.text?_eq_of_beq rfl same), Value.text_beq rfl]

namespace Flags

/-- The flag of a segment: the last that is given for it by name, or else the one that is given with
the others. -/
def flag? (flags named : Flags) (segment : String) : Option Value :=
  (named.reverse.lookup (.text segment)).or (flags.lookup (.text segment))

theorem lookup_overruledBy (flags named : Flags) (segment : String) :
    (flags.overruledBy named).lookup (.text segment) = flags.flag? named segment := by
  induction named generalizing flags with
  | nil => rfl
  | cons entry rest ih =>
    obtain ⟨key, flag⟩ := entry
    have found : (Flags.overruledBy (assign key flag flags) rest).lookup (.text segment) =
        (rest.reverse.lookup (.text segment)).or
          ((assign key flag flags).lookup (.text segment)) := ih _
    rw [overruledBy, assignAll, List.foldl_cons]
    refine found.trans ?_
    rw [lookup_assign_text, flag?, List.reverse_cons, List.lookup_append, Option.or_assoc,
      List.lookup_cons]
    cases (.text segment : Value) == key <;> rfl

theorem isSet_overruledBy (flags named : Flags) (segment : String) :
    (flags.overruledBy named).isSet segment = (flags.flag? named segment).any Value.isTrue := by
  rw [isSet, lookup_overruledBy]
  cases flags.flag? named segment <;> rfl

/-- Entries under other keys have no say in what a key finds. -/
theorem lookup_filter {keeps : Value → Bool} {query : Value}
    (kept : ∀ key, (query == key) = true → keeps key = true) (flags : Flags) :
    (flags.filter fun entry => keeps entry.1).lookup query = flags.lookup query := by
  induction flags with
  | nil => rfl
  | cons entry rest ih =>
    obtain ⟨first, flag⟩ := entry
    by_cases met : (query == first) = true
    · simp [List.lookup_cons, kept first met, met]
    · by_cases keep : keeps first = true <;> simp [List.lookup_cons, keep, met, ih]

end Flags

/-! ## Active variants -/

namespace Style

/-- The paths of the variants that are active under some flags. -/
def activeVariants (style : Style) (flags : Flags) : List (List String) :=
  style.variants.filter fun path => path.all flags.isSet

/-- Whether a key is a segment of the path of some variant. -/
def namesSegment (style : Style) (key : Value) : Bool :=
  key.text?.any fun segment => style.variants.any fun path => path.contains segment

variable {style : Style} {flags others : Flags}

/-- Flags that agree on all segments make the same variants active. -/
theorem activeVariants_congr
    (agree : ∀ path ∈ style.variants, ∀ segment ∈ path, flags.isSet segment = others.isSet segment) :
    style.activeVariants flags = style.activeVariants others := by
  refine List.filter_congr fun path member => ?_
  rw [Bool.eq_iff_iff, List.all_eq_true, List.all_eq_true]
  exact forall₂_congr fun segment within => by rw [agree path member segment within]

/-- Flags under keys that are no segments change nothing. -/
theorem activeVariants_named (style : Style) (flags named : Flags) :
    style.activeVariants
        (Flags.overruledBy (flags.filter fun entry => style.namesSegment entry.1)
          (named.filter fun entry => style.namesSegment entry.1)) =
      style.activeVariants (flags.overruledBy named) := by
  refine activeVariants_congr fun path member segment within => ?_
  have kept (key : Value) (same : ((.text segment : Value) == key) = true) :
      style.namesSegment key = true := by
    rw [namesSegment, Value.text?_eq_of_beq rfl same, Option.any_some, List.any_eq_true]
    exact ⟨path, member, List.contains_iff_mem.mpr within⟩
  rw [Flags.isSet_overruledBy, Flags.isSet_overruledBy, Flags.flag?, Flags.flag?,
    ← List.filter_reverse, Flags.lookup_filter kept, Flags.lookup_filter kept]

/-- Flags that set more make more variants active. -/
theorem activeVariants_mono (style : Style)
    (more : ∀ segment, flags.isSet segment = true → others.isSet segment = true) :
    (style.activeVariants flags).Sublist (style.activeVariants others) := by
  refine List.monotone_filter_right _ fun path set => ?_
  rw [List.all_eq_true] at set ⊢
  exact fun segment within => more segment (set segment within)

end Style

/-- The scopes that a scope is in come before it. -/
theorem Spec.enclosing_before_of_scopesBelow {spec : Spec Key} {path enclosing : List String}
    {before after : List (List String)}
    (split : (spec.scopesBelow []).map (·.1) = before ++ path :: after) (below : enclosing ≠ [])
    (part : enclosing <+: path) (proper : enclosing ≠ path) : enclosing ∈ before := by
  -- What encloses a scope is its parent, which comes before it, or encloses that.
  induction path using List.reverseRecOn generalizing before after with
  | nil => exact absurd (List.prefix_nil.mp part) below
  | append_singleton parent segment ih =>
    have within : enclosing <+: parent :=
      (List.prefix_concat_iff.mp part).resolve_left proper
    rcases Spec.parent_before_of_scopesBelow split with root | earlier
    · rw [root] at within
      exact absurd (List.prefix_nil.mp within) below
    · by_cases same : enclosing = parent
      · exact same ▸ earlier
      · obtain ⟨first, second, rfl⟩ := List.append_of_mem earlier
        rw [List.append_assoc, List.cons_append] at split
        exact List.mem_append_left _ (ih split within same)

namespace Conventions

variable {conventions : Conventions} {style : Style}

/-- The classes on an element are the root class and those of the active variants. -/
theorem Makes.activeNames (made : conventions.Makes style) (flags : Flags) :
    style.activeNames flags =
      style.name ::
        (style.activeVariants flags).map (modifierClass conventions.separator style.name) := by
  rw [Style.activeNames, Style.activeVariants, made.variants, made.modifiers, List.filter_map,
    List.map_map]
  rfl

/-- Variants that enclose an active one are active, and come before it. -/
theorem Makes.enclosing_active (made : conventions.Makes style) {flags : Flags}
    {path enclosing : List String} {before after : List (List String)}
    (active : style.activeVariants flags = before ++ path :: after) (below : enclosing ≠ [])
    (part : enclosing <+: path) (proper : enclosing ≠ path) :
    enclosing ∈ style.variants ∧ enclosing ∈ before := by
  obtain ⟨first, second, whole, rfl, further⟩ := List.filter_eq_append_iff.mp active
  obtain ⟨gap, rest, rfl, dropped, set, _⟩ := List.filter_eq_cons_iff.mp further
  rw [← List.append_assoc] at whole
  have earlier : enclosing ∈ first ++ gap :=
    Spec.enclosing_before_of_scopesBelow (made.variants.symm.trans whole) below part proper
  have alsoSet : enclosing.all flags.isSet = true := by
    rw [List.all_eq_true] at set ⊢
    exact fun segment within => set segment (part.subset within)
  refine ⟨whole ▸ List.mem_append_left _ earlier, List.mem_filter.mpr ⟨?_, alsoSet⟩⟩
  exact (List.mem_append.mp earlier).resolve_right fun skipped =>
    absurd alsoSet (dropped enclosing skipped)

/-- **Active variants are closed under enclosing ones, ordered and monotone.** The class attribute
that a style gives to an element is the root class and, in the order in which the variants are walked,
the classes of the variants all of whose segments are set; and a segment is set if the last flag that is
given for it by name counts as true, or where there is none, the one that is given with the others. Each
variant that encloses an active one is active and comes before it. Behind a segment that is not set no
variant is active. Flags under keys that are no segments change nothing. Where one choice of flags sets
all that another sets, the variants and the classes of that are among those of the one, in this order. -/
theorem active_variants_closed_and_monotone (made : conventions.Makes style)
    (flags named : Flags) :
    (∀ segment, (flags.overruledBy named).isSet segment =
      (flags.flag? named segment).any Value.isTrue) ∧
    style.variants = (style.spec.scopesBelow []).map (·.1) ∧
    style.classAttribute (flags.overruledBy named) =
      String.intercalate " " (style.name ::
        (style.activeVariants (flags.overruledBy named)).map
          (modifierClass conventions.separator style.name)) ∧
    (∀ before path after,
      style.activeVariants (flags.overruledBy named) = before ++ path :: after →
      ∀ enclosing, enclosing ≠ [] → enclosing <+: path → enclosing ≠ path →
        enclosing ∈ style.variants ∧ enclosing ∈ before) ∧
    (∀ segment, (flags.overruledBy named).isSet segment = false →
      ∀ path ∈ style.activeVariants (flags.overruledBy named), segment ∉ path) ∧
    style.classAttribute
        (Flags.overruledBy (flags.filter fun entry => style.namesSegment entry.1)
          (named.filter fun entry => style.namesSegment entry.1)) =
      style.classAttribute (flags.overruledBy named) ∧
    ∀ others otherNamed : Flags,
      (∀ segment, (flags.overruledBy named).isSet segment = true →
        (others.overruledBy otherNamed).isSet segment = true) →
      (style.activeVariants (flags.overruledBy named)).Sublist
          (style.activeVariants (others.overruledBy otherNamed)) ∧
        (style.activeNames (flags.overruledBy named)).Sublist
          (style.activeNames (others.overruledBy otherNamed)) := by
  refine ⟨flags.isSet_overruledBy named, made.variants, ?_, ?_, ?_, ?_, ?_⟩
  · rw [style.classAttribute_eq, made.activeNames]
  · intro before path after active enclosing below part proper
    exact made.enclosing_active active below part proper
  · intro segment unset path active within
    have set := List.all_eq_true.mp (List.mem_filter.mp active).2 segment within
    rw [unset] at set
    cases set
  · rw [style.classAttribute_eq, style.classAttribute_eq, made.activeNames, made.activeNames,
      style.activeVariants_named]
  · intro others otherNamed more
    have variants := style.activeVariants_mono more
    rw [made.activeNames, made.activeNames]
    exact ⟨variants, (variants.map _).cons_cons _⟩

/-- A variant in one of the same name, and two that have each other's name in them. -/
private def crossedResult : Except Fault Style :=
  (compile {} .fresh (.map [
    (.text "on", .map [(.text "on", .map []), (.text "off", .map [])]),
    (.text "off", .map [(.text "on", .map [])])]) (.text "x")).1

/-- A flag that is taken back by name leaves the variants of the other, the enclosing one first. -/
theorem active_variants_closed_and_monotone_of_crossed :
    ∃ style flags, ({} : Conventions).Makes style ∧
      flags = Flags.overruledBy [(.text "on", .int 1), (.text "off", .bool true), (.int 3, .int 1)]
        [(.text "off", .text "")] ∧
      style.classAttribute flags = "X_x1 X_x1--on X_x1--on--on" ∧
      style.activeVariants flags = [["on"]] ++ ["on", "on"] :: [] ∧
      ["on"] ∈ style.variants := by
  have runs : crossedResult.isOk = true := by decide +kernel
  obtain ⟨style, ran⟩ := exists_of_isOk runs
  have made : ({} : Conventions).Makes style := .compiled ran
  have facts : crossedResult.toOption.map (fun style => (style.name, style.variants)) =
      some ("X_x1", [["on"], ["on", "on"], ["on", "off"], ["off"], ["off", "on"]]) := by
    decide +kernel
  rw [ran] at facts
  obtain ⟨name, variants⟩ := Prod.mk.inj (Option.some.inj facts)
  obtain ⟨_, _, classes, closed, _⟩ := active_variants_closed_and_monotone made
    [(.text "on", .int 1), (.text "off", .bool true), (.int 3, .int 1)] [(.text "off", .text "")]
  have active : style.activeVariants (Flags.overruledBy
      [(.text "on", .int 1), (.text "off", .bool true), (.int 3, .int 1)]
      [(.text "off", .text "")]) = [["on"]] ++ ["on", "on"] :: [] := by
    rw [Style.activeVariants, variants]
    decide +kernel
  refine ⟨style, _, made, rfl, ?_, active, ?_⟩
  · rw [classes, active, name]
    decide +kernel
  · exact (closed _ _ _ active ["on"] (by decide) ⟨["on"], rfl⟩ (by decide)).1

end Conventions

end ScopedStyle
