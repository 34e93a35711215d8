import Mathlib
import ScopedStyle.NameSource

/-! What can be read off an issued name. No letter has an underscore in its capital form, so the base
with a capital has as many as the base itself; the underscore between the two is therefore the middle
one, and behind it the base and the number can be told apart by the capital that the base has. -/
namespace ScopedStyle

/-! ## Capitals -/

/-- Whether a character is in no capital form, unless it be its own. -/
def isUncased (mark : Char) : Bool :=
  mark.toNat != 0 && (longCapitals.all fun entry => !entry.2.toList.contains mark) &&
    caseRuns.all fun run =>
      run.last + run.shift < mark.toNat || mark.toNat < run.first + run.shift

theorem underscore_isUncased : isUncased '_' = true := by decide +kernel

theorem dash_isUncased : isUncased '-' = true := by decide +kernel

/-- Only an uncased character itself has it in its capital form, and nothing else there. -/
theorem capitalForm_of_uncased {mark c : Char} (uncased : isUncased mark = true)
    (member : mark ∈ capitalForm c) : c = mark ∧ capitalForm c = [mark] := by
  simp only [isUncased, Bool.and_eq_true, List.all_eq_true, bne_iff_ne, Bool.or_eq_true,
    decide_eq_true_eq] at uncased
  obtain ⟨⟨code, long⟩, runs⟩ := uncased
  unfold capitalForm at member ⊢
  split at member
  · next entry found =>
    have absent := long entry (List.mem_of_find?_eq_some found)
    simp [member] at absent
  · split at member
    · next run found =>
      have outside := runs run (List.mem_of_find?_eq_some found)
      have covered := List.find?_some found
      simp only [CaseRun.covers, Bool.and_eq_true, decide_eq_true_eq] at covered
      have same := congrArg Char.toNat (List.mem_singleton.mp member)
      rw [CaseRun.capital, Char.toNat_ofNat] at same
      split at same <;> omega
    · have same := List.mem_singleton.mp member
      exact ⟨same.symm, congrArg (fun c => [c]) same.symm⟩

theorem toList_capitalizeFirst_cons {text : String} {first : Char} {rest : List Char}
    (split : text.toList = first :: rest) :
    (capitalizeFirst text).toList = capitalForm first ++ rest := by
  rw [capitalizeFirst, split, String.toList_ofList]

theorem toList_capitalizeFirst_nil {text : String} (empty : text.toList = []) :
    (capitalizeFirst text).toList = [] := by
  rw [capitalizeFirst, empty, String.toList_empty]

/-- A capital adds no underscore to a text, and takes none away. -/
theorem count_capitalizeFirst (text : String) :
    (capitalizeFirst text).toList.count '_' = text.toList.count '_' := by
  cases split : text.toList with
  | nil => rw [toList_capitalizeFirst_nil split]
  | cons first rest =>
    rw [toList_capitalizeFirst_cons split, List.count_append, ← List.singleton_append,
      List.count_append]
    by_cases same : first = '_'
    · rw [same]
      rfl
    · have absent : '_' ∉ capitalForm first :=
        fun member => same (capitalForm_of_uncased underscore_isUncased member).1
      have other : '_' ∉ [first] := fun member => same (List.mem_singleton.mp member).symm
      rw [List.count_eq_zero_of_not_mem absent, List.count_eq_zero_of_not_mem other]

/-! ## Numbers -/

theorem isDigit_of_mem_repr {number : Int} (nonneg : 0 ≤ number) {c : Char}
    (member : c ∈ number.repr.toList) : c.isDigit = true := by
  rw [Int.repr_eq_if, if_pos nonneg, Nat.toList_repr] at member
  exact Nat.isDigit_of_mem_toDigits (by decide) (by decide) member

theorem underscore_not_mem_repr (number : Int) : '_' ∉ number.repr.toList := by
  intro member
  rw [Int.repr_eq_if] at member
  split at member
  · exact absurd (Nat.isDigit_of_mem_toDigits (by decide) (by decide) (Nat.toList_repr ▸ member))
      (by decide)
  · rw [String.toList_append, List.mem_append, Nat.toList_repr] at member
    rcases member with sign | digit
    · exact absurd sign (by decide)
    · exact absurd (Nat.isDigit_of_mem_toDigits (by decide) (by decide) digit) (by decide)

/-! ## Names -/

theorem toList_issuedName (base : String) (number : Int) :
    (issuedName base number).toList =
      (capitalizeFirst base).toList ++ '_' :: (base.toList ++ number.repr.toList) := by
  simp [issuedName, String.toList_append]

/-- An issued name ends in a digit. -/
theorem getLast?_issuedName {base : String} {number : Int} (nonneg : 0 ≤ number) :
    ∀ c ∈ (issuedName base number).toList.getLast?, c.isDigit = true := by
  intro c ending
  have proper : number.repr.toList ≠ [] := by
    rw [Int.repr_eq_if, if_pos nonneg, Nat.toList_repr]
    exact Nat.toDigits_ne_nil
  have regroup : (issuedName base number).toList =
      ((capitalizeFirst base).toList ++ '_' :: base.toList) ++ number.repr.toList := by
    rw [toList_issuedName]
    simp
  rw [regroup, List.getLast?_append_of_ne_nil _ proper] at ending
  exact isDigit_of_mem_repr nonneg (List.mem_of_getLast? ending)

private theorem split_at_counted {mark : Char} {before after earlier later : List Char}
    (counted : before.count mark = earlier.count mark)
    (same : before ++ mark :: after = earlier ++ mark :: later) :
    before = earlier ∧ after = later := by
  -- If one part went on behind the other, it would have the mark once more.
  rcases List.append_eq_append_iff.mp same with ⟨surplus, longer, rest⟩ | ⟨surplus, longer, rest⟩
  all_goals
    cases surplus with
    | nil => simp_all
    | cons c surplus =>
      obtain ⟨rfl, _⟩ := List.cons.inj rest
      simp [longer] at counted

/-- Equal names have the same parts before and behind the underscore in the middle. -/
theorem parts_of_issuedName {base other : String} {number next : Int}
    (same : issuedName base number = issuedName other next) :
    (capitalizeFirst base).toList = (capitalizeFirst other).toList ∧
      base.toList ++ number.repr.toList = other.toList ++ next.repr.toList := by
  have characters := congrArg String.toList same
  rw [toList_issuedName, toList_issuedName] at characters
  have counts := congrArg (List.count '_') characters
  simp only [List.count_append, List.count_cons_self, count_capitalizeFirst,
    List.count_eq_zero_of_not_mem (underscore_not_mem_repr _)] at counts
  apply split_at_counted _ characters
  rw [count_capitalizeFirst, count_capitalizeFirst]
  omega

/-- A name is issued for one base only. -/
theorem base_of_issuedName {base other : String} {number next : Int}
    (same : issuedName base number = issuedName other next) : base = other := by
  obtain ⟨capitals, rests⟩ := parts_of_issuedName same
  have nonempty (c : Char) (rest : List Char) : capitalForm c ++ rest ≠ [] := by
    intro empty
    have length := congrArg List.length empty
    have positive := (length_capitalForm c).1
    rw [List.length_append, List.length_nil] at length
    omega
  apply String.toList_inj.mp
  cases held : base.toList with
  | nil =>
    cases otherHeld : other.toList with
    | nil => rfl
    | cons c rest =>
      rw [toList_capitalizeFirst_nil held, toList_capitalizeFirst_cons otherHeld] at capitals
      exact absurd capitals.symm (nonempty c rest)
  | cons c rest =>
    cases otherHeld : other.toList with
    | nil =>
      rw [toList_capitalizeFirst_nil otherHeld, toList_capitalizeFirst_cons held] at capitals
      exact absurd capitals (nonempty c rest)
    | cons d others =>
      rw [held, otherHeld] at rests
      obtain ⟨rfl, _⟩ := List.cons.inj rests
      rw [toList_capitalizeFirst_cons held, toList_capitalizeFirst_cons otherHeld] at capitals
      rw [List.append_cancel_left capitals]

/-- A name is issued with one number only. -/
theorem number_of_issuedName {base other : String} {number next : Int}
    (same : issuedName base number = issuedName other next) : number = next := by
  have parts := (parts_of_issuedName same).2
  rw [base_of_issuedName same] at parts
  exact Int.repr_inj.mp (String.toList_inj.mp (List.append_cancel_left parts))

/-- An underscore is in the capital form of an underscore only. -/
theorem underscore_mem_capitalForm (c : Char) : '_' ∈ capitalForm c ↔ c = '_' := by
  constructor
  · intro member
    exact (capitalForm_of_uncased underscore_isUncased member).1
  · rintro rfl
    decide

/-- **A name tells its base and its number.** Two sources issue the same name only for the same base and
at the same number, whatever the base is and whether the number is negative or not. Of capital forms
this takes no more than that they are not empty, and have no underscore but that of the underscore. -/
theorem issue_eq_issue_iff :
    (∀ c, 1 ≤ (capitalForm c).length ∧ (capitalForm c).length ≤ 3 ∧
      ('_' ∈ capitalForm c ↔ c = '_')) ∧
    ∀ (source other : NameSource) (base second : String),
      (source.issue base).1 = (other.issue second).1 ↔
        base = second ∧ source.next = other.next := by
  constructor
  · intro c
    exact ⟨(length_capitalForm c).1, (length_capitalForm c).2, underscore_mem_capitalForm c⟩
  · intro source other base second
    constructor
    · intro same
      have issued : issuedName base source.next = issuedName second other.next := same
      exact ⟨base_of_issuedName issued, number_of_issuedName issued⟩
    · rintro ⟨rfl, number⟩
      exact congrArg (issuedName base) number

end ScopedStyle
