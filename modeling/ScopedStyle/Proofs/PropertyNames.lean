import Mathlib
import ScopedStyle.Proofs.LastDeclarations

/-! What a property keeps of its name. A capital is written as a hyphen and the small letter, so a
hyphenated name has no capitals, and hyphenating it once more changes nothing. In a name that is not
hyphenated yet no hyphen stands before a small letter; from left to right every such pair in the
property is then a capital of the name, and different names give different properties. -/
namespace ScopedStyle

/-- A name that is not hyphenated yet: no hyphen in it stands right before a letter from a to z. -/
def IsUnhyphenated (name : String) : Prop :=
  name.toList.IsChain fun c next => c = '-' → next.isLower = false

instance (name : String) : Decidable (IsUnhyphenated name) :=
  inferInstanceAs (Decidable (List.IsChain _ _))

/-- Characters read from left to right, a hyphen and the small letter behind it as a capital. -/
def withCapitals : List Char → List Char
  | [] => []
  | '-' :: letter :: rest =>
    if letter.isLower then letter.toUpper :: withCapitals rest
    else '-' :: withCapitals (letter :: rest)
  | c :: rest => c :: withCapitals rest

/-- The name that a property is read as. -/
def unhyphenated (property : String) : String :=
  String.ofList (withCapitals property.toList)

/-! ## Capitals -/

theorem hyphenatedCharacter_of_capital {c : Char} (capital : c.isUpper = true) :
    hyphenatedCharacter c = ['-', c.toLower] :=
  if_pos capital

theorem hyphenatedCharacter_of_not_capital {c : Char} (other : c.isUpper = false) :
    hyphenatedCharacter c = [c] :=
  if_neg (by simp [other])

theorem toList_hyphenated (name : String) :
    (hyphenated name).toList = name.toList.flatMap hyphenatedCharacter :=
  String.toList_ofList

theorem not_isUpper_of_mem_hyphenatedCharacter {c d : Char} (member : d ∈ hyphenatedCharacter c) :
    d.isUpper = false := by
  cases capital : c.isUpper with
  | true =>
    rw [hyphenatedCharacter_of_capital capital] at member
    rcases List.mem_pair.mp member with rfl | rfl
    · rfl
    · exact Char.isUpper_toLower_eq_false c
  | false =>
    rw [hyphenatedCharacter_of_not_capital capital] at member
    rw [List.mem_singleton.mp member]
    exact capital

/-- A property has no capital from A to Z. -/
theorem not_isUpper_of_hyphenated {name : String} {c : Char}
    (member : c ∈ (hyphenated name).toList) : c.isUpper = false := by
  rw [toList_hyphenated] at member
  obtain ⟨letter, _, part⟩ := List.mem_flatMap.mp member
  exact not_isUpper_of_mem_hyphenatedCharacter part

/-- Without capitals there is nothing to hyphenate. -/
theorem hyphenated_of_not_isUpper {name : String}
    (small : ∀ c ∈ name.toList, c.isUpper = false) : hyphenated name = name := by
  have kept : name.toList.flatMap hyphenatedCharacter = name.toList.flatMap fun c => [c] :=
    List.flatMap_congr fun c member => hyphenatedCharacter_of_not_capital (small c member)
  rw [hyphenated, kept, List.flatMap_singleton', String.ofList_toList]

/-! ## Reading back -/

theorem withCapitals_of_letter {letter : Char} (small : letter.isLower = true) (rest : List Char) :
    withCapitals ('-' :: letter :: rest) = letter.toUpper :: withCapitals rest := by
  rw [withCapitals, if_pos small]

/-- A hyphen that no small letter follows stays. -/
theorem withCapitals_of_hyphen {rest : List Char} (other : ∀ c ∈ rest.head?, c.isLower = false) :
    withCapitals ('-' :: rest) = '-' :: withCapitals rest := by
  cases rest with
  | nil => rfl
  | cons next rest => rw [withCapitals, if_neg (by simp [other next rfl])]

theorem withCapitals_of_not_hyphen {c : Char} (other : c ≠ '-') (rest : List Char) :
    withCapitals (c :: rest) = c :: withCapitals rest := by
  rw [withCapitals]
  exact fun _ _ hyphen _ => other hyphen

/-- What follows in a property begins with a small letter only if it does so in the name. -/
private theorem not_isLower_of_head {c : Char} {rest : List Char} (hyphen : c = '-')
    (plain : (c :: rest).IsChain fun c next => c = '-' → next.isLower = false) :
    ∀ d ∈ (rest.flatMap hyphenatedCharacter).head?, d.isLower = false := by
  intro d first
  cases rest with
  | nil => cases first
  | cons next rest =>
    have follows := (List.isChain_cons_cons.mp plain).1 hyphen
    cases capital : next.isUpper with
    | true =>
      rw [List.flatMap_cons, hyphenatedCharacter_of_capital capital] at first
      cases first
      rfl
    | false =>
      rw [List.flatMap_cons, hyphenatedCharacter_of_not_capital capital] at first
      cases first
      exact follows

theorem withCapitals_hyphenated {characters : List Char}
    (plain : characters.IsChain fun c next => c = '-' → next.isLower = false) :
    withCapitals (characters.flatMap hyphenatedCharacter) = characters := by
  induction characters with
  | nil => rfl
  | cons c rest ih =>
    have others := ih plain.tail
    rw [List.flatMap_cons]
    cases capital : c.isUpper with
    | true =>
      have small : c.toLower.isLower = true := by
        rw [Char.isLower_toLower_eq_isAlpha, Char.isAlpha, capital, Bool.true_or]
      have same : c.toLower.toUpper = c := by
        rw [Char.toUpper_toLower_eq_toUpper]
        exact Char.toUpper_eq_of_not_isLower (Char.not_isLower_of_isUpper capital)
      rw [hyphenatedCharacter_of_capital capital, List.cons_append, List.singleton_append,
        withCapitals_of_letter small, same, others]
    | false =>
      rw [hyphenatedCharacter_of_not_capital capital, List.singleton_append]
      by_cases hyphen : c = '-'
      · have follows := not_isLower_of_head hyphen plain
        rw [hyphen, withCapitals_of_hyphen follows, others]
      · rw [withCapitals_of_not_hyphen hyphen, others]

/-- A name that is not hyphenated yet is read back from its property. -/
theorem unhyphenated_hyphenated {name : String} (plain : IsUnhyphenated name) :
    unhyphenated (hyphenated name) = name := by
  rw [unhyphenated, toList_hyphenated, withCapitals_hyphenated plain, String.ofList_toList]

theorem hyphenated_injective {first second : String} (plain : IsUnhyphenated first)
    (also : IsUnhyphenated second) (same : hyphenated first = hyphenated second) :
    first = second := by
  rw [← unhyphenated_hyphenated plain, same, unhyphenated_hyphenated also]

/-! ## Scopes -/

namespace Spec

/-- No two leaves of a spec without double keys have the same text for a key. -/
theorem pairwise_leaves {spec : Spec Key} (distinct : spec.hasDistinctKeys = true) :
    spec.leaves.Pairwise fun first second => first.1.text ≠ second.1.text := by
  induction spec with
  | nil => exact .nil
  | leaf key value rest ih =>
    obtain ⟨once, others⟩ := hasDistinctKeys_leaf.mp distinct
    refine .cons ?_ (ih others)
    rintro ⟨later, held⟩ member same
    have found := find?_of_mem_leaves others member
    rw [← find?_congr (Key.beq_iff.mpr same), once] at found
    cases found
  | scope key traits inner rest _ ih => exact ih (hasDistinctKeys_scope.mp distinct).2.2

end Spec

/-- Whether no property is declared by two leaves of a scope. -/
def DeclareApart (unit : String) (first second : Key × Value) : Prop :=
  ∀ own others, first.2.declarations unit first.1.text = .ok own →
    second.2.declarations unit second.1.text = .ok others →
      ∀ declared ∈ own, ∀ other ∈ others, declared.property ≠ other.property

theorem declareApart_of_text_ne {unit : String} {first second : Key × Value}
    (plain : IsUnhyphenated first.1.text) (also : IsUnhyphenated second.1.text)
    (differ : first.1.text ≠ second.1.text) : DeclareApart unit first second := by
  intro own others ran further declared member other among same
  obtain ⟨_, alike⟩ := Value.property_of_declarations ran
  obtain ⟨_, alikeToo⟩ := Value.property_of_declarations further
  rw [alike declared member, alikeToo other among] at same
  exact differ (hyphenated_injective plain also same)

/-- **Hyphenation loses no name.** A property has no capital from A to Z, so hyphenating it again
changes nothing. A name in which no hyphen stands before a small letter is read back from its property,
each hyphen with a small letter behind it as the capital; two such names therefore have different
properties. And in a scope of a mapping, at any depth, no property is declared by the leaves under two
such keys. -/
theorem hyphenation_loses_no_name :
    (∀ name, (∀ c ∈ (hyphenated name).toList, c.isUpper = false) ∧
      hyphenated (hyphenated name) = hyphenated name) ∧
    (∀ name, IsUnhyphenated name → unhyphenated (hyphenated name) = name) ∧
    (∀ first second, IsUnhyphenated first → IsUnhyphenated second →
      hyphenated first = hyphenated second → first = second) ∧
    ∀ mapping : Mapping Key, ∀ scope ∈ mapping.spec.scopes, ∀ unit,
      scope.2.leaves.Pairwise fun first second =>
        IsUnhyphenated first.1.text → IsUnhyphenated second.1.text →
          DeclareApart unit first second := by
  refine ⟨fun name => ?_, fun _ plain => unhyphenated_hyphenated plain,
    fun _ _ plain also same => hyphenated_injective plain also same, ?_⟩
  · have small : ∀ c ∈ (hyphenated name).toList, c.isUpper = false :=
      fun _ member => not_isUpper_of_hyphenated member
    exact ⟨small, hyphenated_of_not_isUpper small⟩
  · intro mapping scope member unit
    have differ := Spec.pairwise_leaves (Spec.hasDistinctKeys_of_scopes mapping.distinct member)
    exact differ.imp fun apart plain also => declareApart_of_text_ne plain also apart

/-- Keys of one scope that differ in a hyphen before the capital, below another scope. -/
private def vendorSpec : Spec Key :=
  .scope (.ofText "on") none
    (.leaf (.ofText "-MozColor") (.text "red") (.leaf (.ofText "MozColor") (.int 1) .nil)) .nil

/-- Hyphens before a capital, before another hyphen and at the end stay apart from those that are
written for capitals; and a hyphen before a small letter does not. -/
theorem hyphenation_loses_no_name_of_vendor :
    unhyphenated (hyphenated "--MozÉcran-Ab-") = "--MozÉcran-Ab-" ∧
      hyphenated "-MozColor" ≠ hyphenated "MozColor" ∧
      (vendorSpec.scopes.map fun scope => scope.2.leaves.length) = [0, 2] ∧
      (∀ scope ∈ vendorSpec.scopes, scope.2.leaves.Pairwise (DeclareApart "px")) ∧
      hyphenated "font-size" = hyphenated "fontSize" := by
  obtain ⟨_, read, apart, scopes⟩ := hyphenation_loses_no_name
  refine ⟨read _ (by decide), fun same => ?_, rfl, fun scope member => ?_, by decide⟩
  · exact absurd (apart _ _ (by decide) (by decide) same) (by decide)
  · have plain : ∀ scope ∈ vendorSpec.scopes, ∀ leaf ∈ scope.2.leaves,
        IsUnhyphenated leaf.1.text := by decide
    have leaves := plain scope member
    refine (scopes ⟨vendorSpec, by decide⟩ scope member "px").imp_of_mem ?_
    exact fun first second distinct => distinct (leaves _ first) (leaves _ second)

end ScopedStyle
