import ScopedStyle.Proofs.ClassAttributes

/-! Selectors by looking up native selectors one after the other, where a name that is not in the table
is a fault. The place from which on all segments are recognized is searched from the end of the path,
and only paths split there or behind it are looked up; so no look-up ever fails, and what comes out are
the selectors of the variant. -/
namespace ScopedStyle.PseudoClasses

/-- Whether a segment is a recognized name. -/
def isRecognized (table : PseudoClasses) (segment : String) : Bool :=
  (table.selector? segment).isSome

/-- The place from which on the segments before another place are all recognized, searched from that
other place towards the front. -/
def firstNative (table : PseudoClasses) (path : List String) : Nat → Nat
  | 0 => 0
  | place + 1 =>
    if (path[place]?).any table.isRecognized then table.firstNative path place else place + 1

/-- The native selectors of some segments, each of which is looked up. -/
def nativeSelectors (table : PseudoClasses) : List String → Except Fault String
  | [] => .ok ""
  | segment :: rest => do
    let selector ← table.nativeSelector (.text segment)
    let others ← table.nativeSelectors rest
    .ok (selector ++ others)

/-- The selector of a path that is split at a place. -/
def splitSelector (table : PseudoClasses) (separator root : String) (path : List String)
    (split : Nat) : Except Fault String := do
  let natives ← table.nativeSelectors (path.drop split)
  .ok ("." ++ modifierClass separator root (path.take split) ++ natives)

/-- The selectors of a variant, with all native selectors looked up. -/
def lookedUpSelectors (table : PseudoClasses) (separator root : String) (path : List String) :
    Except Fault (List String) := do
  let first := table.firstNative path path.length
  let selectors ← (path.length :: List.range' first (path.length - first)).mapM
    (table.splitSelector separator root path)
  .ok selectors.eraseDups

variable {table : PseudoClasses} {separator root : String} {path : List String}

/-! ## Where native selectors begin -/

theorem firstNative_le (table : PseudoClasses) (path : List String) (place : Nat) :
    table.firstNative path place ≤ place := by
  induction place with
  | zero => exact Nat.le_refl 0
  | succ place ih =>
    simp only [firstNative]
    split
    · exact Nat.le_succ_of_le ih
    · exact Nat.le_refl _

/-- The search ends at the first place from which on all segments are recognized. -/
theorem firstNative_le_iff {place split : Nat} (within : place ≤ path.length) :
    table.firstNative path place ≤ split ↔
      ∀ segment ∈ (path.take place).drop split, table.isRecognized segment = true := by
  induction place with
  | zero => simp [firstNative]
  | succ place ih =>
    have there : path[place]? = some path[place] := List.getElem?_eq_getElem within
    have last : path.take (place + 1) = path.take place ++ [path[place]] :=
      (List.take_append_getElem within).symm
    have length : (path.take place).length = place := List.length_take_of_le (by omega)
    by_cases behind : place + 1 ≤ split
    · have nothing : (path.take (place + 1)).drop split = [] := by simp; omega
      rw [nothing]
      have before := table.firstNative_le path (place + 1)
      exact ⟨fun _ _ member => absurd member List.not_mem_nil, fun _ => by omega⟩
    · rw [last, List.drop_append_of_le_length (by omega)]
      simp only [firstNative, there, Option.any_some, List.forall_mem_append, List.forall_mem_singleton]
      by_cases recognized : table.isRecognized path[place] = true
      · simp [recognized, ih (by omega)]
      · simp only [recognized, Bool.false_eq_true, ↓reduceIte, and_false, iff_false]
        omega

/-! ## Look-ups -/

theorem nativeSelector_of_recognized {segment selector : String}
    (known : table.selector? segment = some selector) :
    table.nativeSelector (.text segment) = .ok selector := by
  have found : table.lookup (.text segment) = .ok (some selector) := congrArg Except.ok known
  simp only [nativeSelector, found]
  rfl

/-- Segments that all have native selectors can be looked up. -/
theorem nativeSelectors_of_suffix {segments : List String} {natives : String}
    (known : table.nativeSuffix? segments = some natives) :
    table.nativeSelectors segments = .ok natives := by
  induction segments generalizing natives with
  | nil =>
    cases known
    rfl
  | cons segment rest ih =>
    obtain ⟨selector, first, known⟩ := Option.bind_eq_some_iff.mp known
    obtain ⟨others, further, same⟩ := Option.bind_eq_some_iff.mp known
    cases same
    simp only [nativeSelectors, nativeSelector_of_recognized first, ih further]
    rfl

/-- Segments have native selectors if all are recognized, and then these are joined. -/
theorem nativeSuffix?_eq (table : PseudoClasses) (segments : List String) :
    table.nativeSuffix? segments =
      if segments.all table.isRecognized then
        some (String.join (segments.filterMap table.selector?))
      else none := by
  induction segments with
  | nil => rfl
  | cons segment rest ih =>
    rw [nativeSuffix?, ih, List.all_cons, isRecognized, List.filterMap_cons]
    cases table.selector? segment with
    | none => rfl
    | some selector => by_cases others : rest.all table.isRecognized <;> simp [others]

theorem isSome_nativeSuffix? (table : PseudoClasses) (segments : List String) :
    (table.nativeSuffix? segments).isSome = true ↔
      ∀ segment ∈ segments, table.isRecognized segment = true := by
  rw [nativeSuffix?_eq, ← List.all_eq_true]
  by_cases recognized : segments.all table.isRecognized = true <;> simp [recognized]

/-- All segments behind a split are recognized if it is not before the place that the search finds. -/
theorem isSome_nativeSuffix?_drop (table : PseudoClasses) (path : List String) (split : Nat) :
    (table.nativeSuffix? (path.drop split)).isSome = true ↔
      table.firstNative path path.length ≤ split := by
  rw [isSome_nativeSuffix?, firstNative_le_iff (Nat.le_refl _), List.take_length]

/-- What stands at a split, where it is known that the look-ups succeed. -/
private def knownSelector (table : PseudoClasses) (separator root : String) (path : List String)
    (split : Nat) : String :=
  "." ++ modifierClass separator root (path.take split) ++
    (table.nativeSuffix? (path.drop split)).getD ""

private theorem splitSelector_of_native {split : Nat}
    (native : table.firstNative path path.length ≤ split) :
    table.splitSelector separator root path split =
      .ok (table.knownSelector separator root path split) := by
  rw [← isSome_nativeSuffix?_drop, Option.isSome_iff_exists] at native
  obtain ⟨natives, known⟩ := native
  simp only [splitSelector, nativeSelectors_of_suffix known, knownSelector, known, Option.getD_some]
  rfl

private theorem splitSelectors_from_native (table : PseudoClasses) (separator root : String)
    (path : List String) :
    table.splitSelectors separator root path =
      (List.range' (table.firstNative path path.length)
        (path.length - table.firstNative path path.length)).map
          (table.knownSelector separator root path) := by
  have before := table.firstNative_le path path.length
  have parts : List.range path.length =
      List.range (table.firstNative path path.length) ++
        List.range' (table.firstNative path path.length)
          (path.length - table.firstNative path path.length) := by
    have joined := @List.range'_append_1 0 (table.firstNative path path.length)
      (path.length - table.firstNative path path.length)
    rw [Nat.zero_add, Nat.add_sub_cancel' before] at joined
    rw [List.range_eq_range', List.range_eq_range', joined]
  rw [splitSelectors_eq, parts, List.filterMap_append]
  have none : (List.range (table.firstNative path path.length)).filterMap (fun split =>
      (table.nativeSuffix? (path.drop split)).map fun natives =>
        "." ++ modifierClass separator root (path.take split) ++ natives) = [] := by
    refine List.filterMap_eq_nil_iff.mpr fun split member => ?_
    rw [Option.map_eq_none_iff, ← Option.not_isSome_iff_eq_none, isSome_nativeSuffix?_drop]
    exact Nat.not_le_of_lt (List.mem_range.mp member)
  rw [none, List.nil_append, ← List.filterMap_eq_map]
  refine List.filterMap_congr fun split member => ?_
  obtain ⟨native, _⟩ := List.mem_range'_1.mp member
  rw [← isSome_nativeSuffix?_drop, Option.isSome_iff_exists] at native
  obtain ⟨natives, known⟩ := native
  simp [knownSelector, known]

/-- **No look-up fails.** The native selectors that are looked up for a variant are all in the table,
and what comes out are the selectors of the variant. -/
theorem lookedUpSelectors_eq (table : PseudoClasses) (separator root : String)
    (path : List String) :
    table.lookedUpSelectors separator root path =
      .ok (table.variantSelectors separator root path) := by
  have native (split : Nat)
      (member : split ∈ path.length :: List.range' (table.firstNative path path.length)
        (path.length - table.firstNative path path.length)) :
      table.splitSelector separator root path split =
        .ok (table.knownSelector separator root path split) := by
    refine splitSelector_of_native ?_
    rcases List.mem_cons.mp member with rfl | member
    · exact table.firstNative_le path _
    · exact (List.mem_range'_1.mp member).1
  have whole : table.knownSelector separator root path path.length =
      "." ++ modifierClass separator root path := by
    simp [knownSelector, nativeSuffix?]
  have looked := mapM_eq_ok.mpr ((List.map_congr_left native).trans List.map_map.symm)
  simp only [lookedUpSelectors, looked, List.map_cons, whole, ← splitSelectors_from_native,
    variantSelectors]
  rfl

end ScopedStyle.PseudoClasses
