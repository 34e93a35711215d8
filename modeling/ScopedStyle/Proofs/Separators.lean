import Mathlib.Data.List.Infix
import ScopedStyle.Selector

/-! Segments with a separator before each. Whether the segments can be read back from such a text
depends on the borders of the separator, which are the proper parts that it both begins and ends
with: where it has none, segments without the separator in them are read back in one way only, and
where it has one, the separator can be made out at the seam of a segment and the separator after it. -/
namespace ScopedStyle

/-- Whether a pattern has a border: a part that it begins with and ends with, neither empty nor the
whole pattern. -/
def isBordered (pattern : List Char) : Bool :=
  pattern.tail.tails.any fun border => !border.isEmpty && border.isPrefixOf pattern

/-- Some segments, with the separator before each. -/
def separated (separator : List Char) (segments : List (List Char)) : List Char :=
  segments.flatMap (separator ++ ·)

example : isBordered "--".toList = true := by decide
example : isBordered "->".toList = false := by decide

theorem separated_ne_nil {separator : List Char} {segments : List (List Char)}
    (nonempty : separator ≠ []) (below : segments ≠ []) : separated separator segments ≠ [] := by
  cases segments with
  | nil => exact absurd rfl below
  | cons segment rest => simp [separated, nonempty]

theorem occursIn_iff {pattern text : List Char} :
    occursIn pattern text = true ↔ pattern <:+: text := by
  induction text with
  | nil => simp [occursIn]
  | cons c rest ih =>
    rw [occursIn, Bool.or_eq_true, List.isPrefixOf_iff_prefix, ih, List.infix_cons_iff]

/-- A pattern does not occur in what is shorter. -/
theorem not_occursIn_of_short {pattern text : List Char} (short : text.length < pattern.length) :
    occursIn pattern text = false := by
  apply Bool.eq_false_iff.mpr
  intro occurs
  have bound := (occursIn_iff.mp occurs).length_le
  omega

theorem isBordered_iff {pattern : List Char} :
    isBordered pattern = true ↔ ∃ first border last, first ≠ [] ∧ border ≠ [] ∧
      first ++ border = pattern ∧ border ++ last = pattern := by
  simp only [isBordered, List.any_eq_true, List.mem_tails, Bool.and_eq_true,
    List.isPrefixOf_iff_prefix, Bool.not_eq_true', List.isEmpty_eq_false_iff]
  constructor
  · rintro ⟨border, ⟨start, ending⟩, proper, last, beginning⟩
    cases pattern with
    | nil => simp_all
    | cons c rest => exact ⟨c :: start, border, last, by simp, proper, by simpa using ending, beginning⟩
  · rintro ⟨first, border, last, nonempty, proper, ending, beginning⟩
    cases first with
    | nil => exact absurd rfl nonempty
    | cons c start =>
      rw [← ending]
      exact ⟨border, ⟨start, rfl⟩, proper, last, beginning.trans ending.symm⟩

/-- A border is a proper part that is both a prefix and a suffix. -/
theorem isBordered_iff_part {pattern : List Char} :
    isBordered pattern = true ↔
      ∃ part, part ≠ [] ∧ part ≠ pattern ∧ part <+: pattern ∧ part <:+ pattern := by
  rw [isBordered_iff]
  constructor
  · rintro ⟨first, border, last, nonempty, proper, ending, beginning⟩
    refine ⟨border, proper, fun whole => nonempty ?_, ⟨last, beginning⟩, ⟨first, ending⟩⟩
    rwa [whole, List.append_left_eq_self] at ending
  · rintro ⟨border, proper, other, ⟨last, beginning⟩, ⟨first, ending⟩⟩
    refine ⟨first, border, last, fun empty => other ?_, proper, ending, beginning⟩
    rw [← ending, empty, List.nil_append]

/-- A single character has no proper parts. -/
theorem not_isBordered_of_single {pattern : List Char} (single : pattern.length = 1) :
    isBordered pattern = false := by
  rw [Bool.eq_false_iff, Ne, isBordered_iff_part]
  rintro ⟨part, proper, other, begins, _⟩
  have positive := List.length_pos_iff.mpr proper
  have within := begins.length_le
  exact other (begins.eq_of_length (by omega))

/-! ## Reading back -/

/-- What is left over of a segment without the separator in it cannot be the beginning of separated
segments: the separator would begin in it, and end either in it or after a border. -/
private theorem not_separated_of_rest {separator segment surplus : List Char}
    {path other : List (List Char)} (unbordered : isBordered separator = false)
    (avoids : occursIn separator (segment ++ surplus) = false) (proper : surplus ≠ []) :
    separated separator path ≠ surplus ++ separated separator other := by
  intro same
  have outside {after : List Char} (held : surplus = separator ++ after) : False := by
    have occurs : separator <:+: segment ++ surplus := ⟨segment, after, by rw [held]; simp⟩
    rw [occursIn_iff.mpr occurs] at avoids
    cases avoids
  cases path with
  | nil =>
    have empty := List.append_eq_nil_iff.mp same.symm
    exact proper empty.1
  | cons segment rest =>
    simp only [separated, List.flatMap_cons, List.append_assoc] at same
    -- The separator that begins the path ends within the rest, or goes on behind it; what goes on
    -- there begins the other separated segments, hence the separator, and is a border.
    obtain ⟨after, held, _⟩ | ⟨border, split, further⟩ := List.append_eq_append_iff.mp same
    · exact outside held
    · have kept : border ≠ [] := by
        intro empty
        have held : surplus = separator ++ [] := by rw [split, empty, List.append_nil, List.append_nil]
        exact outside held
      cases other with
      | nil => simp [kept] at further
      | cons first others =>
        simp only [List.flatMap_cons, List.append_assoc] at further
        have short : border.length ≤ separator.length := by
          rw [split, List.length_append]
          omega
        have begins : border <+: separator :=
          List.prefix_of_prefix_length_le ⟨_, further.symm⟩ ⟨_, rfl⟩ short
        obtain ⟨last, beginning⟩ := begins
        have bordered := isBordered_iff.mpr ⟨surplus, border, last, proper, kept, split.symm, beginning⟩
        rw [unbordered] at bordered
        cases bordered

/-- Segments without the separator in them are read back from the separated ones, if the separator is
unbordered. -/
theorem separated_injective {separator : List Char} {path other : List (List Char)}
    (unbordered : isBordered separator = false) (nonempty : separator ≠ [])
    (avoids : ∀ segment ∈ path, occursIn separator segment = false)
    (otherAvoids : ∀ segment ∈ other, occursIn separator segment = false)
    (same : separated separator path = separated separator other) : path = other := by
  induction path generalizing other with
  | nil =>
    cases other with
    | nil => rfl
    | cons segment others => simp [separated, nonempty] at same
  | cons segment rest ih =>
    cases other with
    | nil => simp [separated, nonempty] at same
    | cons first others =>
      obtain ⟨here, below⟩ := List.forall_mem_cons.mp avoids
      obtain ⟨otherHere, otherBelow⟩ := List.forall_mem_cons.mp otherAvoids
      have cancelled : segment ++ separated separator rest = first ++ separated separator others := by
        simp only [separated, List.flatMap_cons, List.append_assoc] at same
        exact List.append_cancel_left same
      have equal : segment = first := by
        obtain ⟨surplus, rfl, rest⟩ | ⟨surplus, rfl, rest⟩ := List.append_eq_append_iff.mp cancelled
        · by_contra differ
          exact not_separated_of_rest unbordered otherHere (by simpa using differ) rest
        · by_contra differ
          exact not_separated_of_rest unbordered here (by simpa using differ) rest
      subst equal
      rw [ih below otherBelow (List.append_cancel_left cancelled)]

/-- Below a bordered separator two segments can change places with the empty one. -/
theorem separated_collision {separator : List Char} (bordered : isBordered separator = true) :
    ∃ first last, first ≠ [] ∧ occursIn separator first = false ∧
      occursIn separator last = false ∧ occursIn separator [] = false ∧
      separated separator [[], last] = separated separator [first, []] := by
  obtain ⟨first, border, last, nonempty, proper, ending, beginning⟩ := isBordered_iff.mp bordered
  have positive := List.length_pos_iff.mpr proper
  have firstLength := congrArg List.length ending
  have lastLength := congrArg List.length beginning
  simp only [List.length_append] at firstLength lastLength
  refine ⟨first, last, nonempty, not_occursIn_of_short (by omega), not_occursIn_of_short (by omega),
    not_occursIn_of_short (by rw [List.length_nil]; omega), ?_⟩
  have swap : separator ++ last = first ++ separator := by
    calc separator ++ last = (first ++ border) ++ last := by rw [ending]
      _ = first ++ (border ++ last) := List.append_assoc ..
      _ = first ++ separator := by rw [beginning]
  simp [separated, swap]

/-! ## Behind a text -/

/-- If separated segments make two different texts equal, neither of which ends in a character of the
separator, then the longer of the texts goes on with the separator where the shorter ends. -/
theorem prefix_of_append_separated {separator first second : List Char}
    {path other : List (List Char)} (firstEnd : ∀ c ∈ first.getLast?, c ∉ separator)
    (secondEnd : ∀ c ∈ second.getLast?, c ∉ separator) (differ : first ≠ second)
    (same : first ++ separated separator path = second ++ separated separator other) :
    first ++ separator <+: second ∨ second ++ separator <+: first := by
  -- What the longer text has over the shorter begins the separated segments, hence the separator,
  -- and is not a part of it, since that would be the end of the text.
  have goes {short long : List Char} {path other : List (List Char)}
      (longEnd : ∀ c ∈ long.getLast?, c ∉ separator) (differ : short ≠ long)
      (surplus : List Char) (longer : long = short ++ surplus)
      (rest : separated separator path = surplus ++ separated separator other) :
      short ++ separator <+: long := by
    have proper : surplus ≠ [] := by
      rintro rfl
      exact differ (by rw [longer, List.append_nil])
    cases path with
    | nil => exact absurd (List.append_eq_nil_iff.mp rest.symm).1 proper
    | cons segment path =>
      simp only [separated, List.flatMap_cons, List.append_assoc] at rest
      obtain ⟨after, held, _⟩ | ⟨after, held, _⟩ := List.append_eq_append_iff.mp rest
      · exact ⟨after, by rw [longer, held, List.append_assoc]⟩
      · have ending : surplus.getLast proper ∈ long.getLast? := by
          rw [longer, List.getLast?_append_of_ne_nil _ proper, List.getLast?_eq_some_getLast proper]
          exact rfl
        have member : surplus.getLast proper ∈ separator := by
          rw [held]
          exact List.mem_append_left _ (List.getLast_mem proper)
        exact absurd member (longEnd _ ending)
  obtain ⟨surplus, longer, rest⟩ | ⟨surplus, longer, rest⟩ := List.append_eq_append_iff.mp same
  · exact .inl (goes secondEnd differ surplus longer rest)
  · exact .inr (goes firstEnd (Ne.symm differ) surplus longer rest)

/-- Whatever stands behind a separator is read as segments without the separator in them. -/
theorem exists_separated {separator : List Char} (nonempty : separator ≠ []) (text : List Char) :
    ∃ segments, segments ≠ [] ∧ (∀ segment ∈ segments, occursIn separator segment = false) ∧
      separated separator segments = separator ++ text := by
  have positive := List.length_pos_iff.mpr nonempty
  -- From the front, a separator ends the segment before it, and any other character is in a segment.
  induction length : text.length using Nat.strongRecOn generalizing text with
  | ind size ih =>
    cases text with
    | nil =>
      have avoids : occursIn separator [] = false := not_occursIn_of_short positive
      exact ⟨[[]], by simp, by simpa using avoids, by simp [separated]⟩
    | cons c rest =>
      by_cases begins : separator <+: c :: rest
      · obtain ⟨after, split⟩ := begins
        have shorter : after.length < size := by
          rw [← length, ← split, List.length_append]
          omega
        obtain ⟨segments, below, avoid, made⟩ := ih _ shorter after rfl
        have avoids : occursIn separator [] = false := not_occursIn_of_short positive
        refine ⟨[] :: segments, by simp, List.forall_mem_cons.mpr ⟨avoids, avoid⟩, ?_⟩
        calc separated separator ([] :: segments)
          _ = separator ++ separated separator segments := by simp [separated]
          _ = separator ++ c :: rest := by rw [made, split]
      · obtain ⟨segments, below, avoid, made⟩ := ih rest.length (by simp [← length]) rest rfl
        cases segments with
        | nil => exact absurd rfl below
        | cons segment segments =>
          obtain ⟨here, others⟩ := List.forall_mem_cons.mp avoid
          have split : segment ++ separated separator segments = rest := by
            simp only [separated, List.flatMap_cons, List.append_assoc] at made
            exact List.append_cancel_left made
          have avoids : occursIn separator (c :: segment) = false := by
            rw [occursIn, here, Bool.or_false, Bool.eq_false_iff, Ne, List.isPrefixOf_iff_prefix]
            intro inside
            exact begins (inside.trans ⟨separated separator segments, by rw [← split]; rfl⟩)
          refine ⟨(c :: segment) :: segments, by simp, List.forall_mem_cons.mpr ⟨avoids, others⟩, ?_⟩
          calc separated separator ((c :: segment) :: segments)
            _ = separator ++ c :: (segment ++ separated separator segments) := by simp [separated]
            _ = separator ++ c :: rest := by rw [split]

end ScopedStyle
