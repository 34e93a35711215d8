import ScopedStyle.Proofs.ClassAttributes
import ScopedStyle.Proofs.ClassNames

/-! Which separators are safe: those below which no style, however it is made, has two variants with
different paths and one class name. These are exactly the separators without a border, since what can be
compiled below a bordered one does not depend on the pseudo-classes and the unit that are chosen with
it. -/
namespace ScopedStyle

/-- Separators below which the class names of every style tell its variants apart. -/
def IsSafeSeparator (separator : String) : Prop :=
  ∀ conventions : Conventions, conventions.separator = separator →
    ∀ style, conventions.Makes style →
      ∀ first ∈ style.modifiers, ∀ second ∈ style.modifiers,
        first.1 ≠ second.1 → first.2 ≠ second.2

namespace Conventions

theorem isSafeSeparator_of_unbordered {separator : String}
    (unbordered : isBordered separator.toList = false) : IsSafeSeparator separator := by
  rintro conventions rfl style made
  exact modifiers_differ_of_snapshot made.snapshot unbordered

/-- A compiler with a bordered separator makes a style in which two variants share a class name. -/
theorem not_isSafeSeparator_of_bordered {separator : String}
    (bordered : isBordered separator.toList = true) : ¬ IsSafeSeparator separator := by
  intro safe
  let conventions : Conventions := { separator := separator }
  have named : checkedBaseName (.text "style") = .ok "style" := rfl
  obtain ⟨_, style, compiled, first, member, second, other, differ, same⟩ :=
    exists_ambiguous (show isBordered conventions.separator.toList = true from bordered) .fresh named
  exact safe conventions rfl style (.compiled compiled) first member second other differ same

/-- **The safe separators are the unbordered ones.** A separator is safe if and only if no proper part of
it, other than the empty one, is both a prefix and a suffix of it; so every single character is. Where
there is such a part, then with every compiler that has the separator, from every name source and under
every valid base name, there is a spec that compiles and two variants of which share a class name. -/
theorem safe_separators_are_unbordered (separator : String) :
    (IsSafeSeparator separator ↔
      ∀ part, part ≠ [] → part ≠ separator.toList → part <+: separator.toList →
        ¬ part <:+ separator.toList) ∧
    (separator.length = 1 → IsSafeSeparator separator) ∧
    (∀ part, part ≠ [] → part ≠ separator.toList → part <+: separator.toList →
      part <:+ separator.toList → ∀ conventions : Conventions, conventions.separator = separator →
        ∀ (source : NameSource) (baseName : Value) (name : String),
          checkedBaseName baseName = .ok name →
          ∃ given style, (conventions.compile source given baseName).1 = .ok style ∧
            ∃ first ∈ style.modifiers, ∃ second ∈ style.modifiers,
              first.1 ≠ second.1 ∧ first.2 = second.2) := by
  have safe_iff : IsSafeSeparator separator ↔ isBordered separator.toList = false :=
    ⟨fun safe => Bool.eq_false_iff.mpr fun bordered =>
      not_isSafeSeparator_of_bordered bordered safe, isSafeSeparator_of_unbordered⟩
  refine ⟨?_, ?_, ?_⟩
  · rw [safe_iff, Bool.eq_false_iff, Ne, isBordered_iff_part]
    exact ⟨fun none part proper other begins ends => none ⟨part, proper, other, begins, ends⟩,
      fun none ⟨part, proper, other, begins, ends⟩ => none part proper other begins ends⟩
  · intro single
    exact safe_iff.mpr (not_isBordered_of_single (by rwa [String.length_toList]))
  · rintro part proper other begins ends conventions rfl source baseName name named
    have bordered := isBordered_iff_part.mpr ⟨part, proper, other, begins, ends⟩
    exact exists_ambiguous bordered source named

/-- An arrow and a single bar are safe, and the two dashes that stand between segments unless another
separator is chosen are not. -/
theorem safe_separators_are_unbordered_of_dashes :
    IsSafeSeparator "->" ∧ IsSafeSeparator "|" ∧ ¬ IsSafeSeparator "--" := by
  refine ⟨?_, (safe_separators_are_unbordered "|").2.1 rfl, ?_⟩
  · refine (safe_separators_are_unbordered "->").1.mpr fun part proper other begins ends => ?_
    have bordered := isBordered_iff_part.mpr ⟨part, proper, other, begins, ends⟩
    exact absurd bordered (by decide)
  · intro safe
    have unbordered := (safe_separators_are_unbordered "--").1.mp safe ['-']
    exact unbordered (by decide) (by decide) (by decide) (by decide)

end Conventions

end ScopedStyle
