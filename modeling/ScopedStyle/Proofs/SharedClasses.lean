import ScopedStyle.Proofs.ClassNames
import ScopedStyle.Proofs.CompilingInTurn
import ScopedStyle.Proofs.IssuedNames

/-! Class names that two styles have in common. The root classes of styles with names from one source
differ, and a class name is a root class with separated segments behind it. So two styles can share a
class only where the root class of one goes on, behind that of the other, with a separator; an issued
name does so only if its base does, and since nothing keeps the separator out of a base, some do. -/
namespace ScopedStyle

/-- The class names of a style: its root class and those of its variants. -/
def Style.classNames (style : Style) : List String :=
  style.name :: style.modifiers.map (·.2)

/-- Whether two styles have a class name in common. -/
def Style.SharesClass (style other : Style) : Prop :=
  ∃ className ∈ style.classNames, className ∈ other.classNames

/-- Whether a name goes on with the separator behind another name. -/
def ContinuesBehind (separator name other : String) : Prop :=
  (other ++ separator).toList <+: name.toList

/-! ## Names that hold the separator -/

/-- What occurs in two parts of a text, next to each other, lies in one of them if at the seam one has
a character that does not belong to it. -/
private theorem infix_of_seam {pattern before after : List Char}
    (seam : (∀ c ∈ before.getLast?, c ∉ pattern) ∨ ∀ c ∈ after.head?, c ∉ pattern)
    (inside : pattern <:+: before ++ after) : pattern <:+: before ∨ pattern <:+: after := by
  rcases List.infix_append_iff_ne_nil.mp inside with
    first | second | ⟨front, back, frontProper, backProper, rfl, ⟨start, rfl⟩, ⟨rest, rfl⟩⟩
  · exact .inl first
  · exact .inr second
  · rcases seam with lastOutside | firstOutside
    · have ending : front.getLast frontProper ∈ (start ++ front).getLast? := by
        rw [List.getLast?_append_of_ne_nil _ frontProper, List.getLast?_eq_some_getLast frontProper]
        exact rfl
      exact absurd (List.mem_append_left back (List.getLast_mem frontProper))
        (lastOutside _ ending)
    · have beginning : back.head backProper ∈ (back ++ rest).head? := by
        rw [List.head?_append_of_ne_nil _ backProper, List.head?_eq_some_head backProper]
        exact rfl
      exact absurd (List.mem_append_right front (List.head_mem backProper))
        (firstOutside _ beginning)

private theorem not_infix_of_not_mem {pattern text : List Char} {c : Char} (member : c ∈ pattern)
    (absent : c ∉ text) : ¬ pattern <:+: text :=
  fun inside => absent (inside.subset member)

private theorem dash_mem_dashes : '-' ∈ "--".toList := by decide

private theorem digit_not_mem_dashes {c : Char} (digit : c.isDigit = true) : c ∉ "--".toList := by
  intro dash
  have isDash : c = '-' := by simpa using dash
  rw [isDash] at digit
  exact absurd digit (by decide)

/-- A capital brings two dashes into a text only if they are in the text. -/
private theorem dashes_infix_of_capitalizeFirst {base : String}
    (inside : "--".toList <:+: (capitalizeFirst base).toList) : "--".toList <:+: base.toList := by
  cases split : base.toList with
  | nil =>
    rw [toList_capitalizeFirst_nil split] at inside
    exact inside
  | cons first rest =>
    rw [toList_capitalizeFirst_cons split] at inside
    by_cases same : '-' ∈ capitalForm first
    · obtain ⟨rfl, capital⟩ := capitalForm_of_uncased dash_isUncased same
      rw [capital] at inside
      exact inside
    · have seam : ∀ c ∈ (capitalForm first).getLast?, c ∉ "--".toList := by
        intro c ending dash
        have isDash : c = '-' := by simpa using dash
        exact same (isDash ▸ List.mem_of_getLast? ending)
      rcases infix_of_seam (.inl seam) inside with capital | behind
      · exact absurd capital (not_infix_of_not_mem dash_mem_dashes same)
      · exact behind.trans (List.suffix_cons first rest).isInfix

/-- Two dashes in an issued name are in its base. -/
theorem dashes_infix_of_issuedName {base : String} {number : Int} (nonneg : 0 ≤ number)
    (inside : "--".toList <:+: (issuedName base number).toList) : "--".toList <:+: base.toList := by
  have digits {c : Char} (member : c ∈ number.repr.toList) : c ∉ "--".toList :=
    digit_not_mem_dashes (isDigit_of_mem_repr nonneg member)
  rw [toList_issuedName] at inside
  have underscore : ∀ c ∈ ('_' :: (base.toList ++ number.repr.toList)).head?, c ∉ "--".toList := by
    simp
  rcases infix_of_seam (.inr underscore) inside with capital | behind
  · exact dashes_infix_of_capitalizeFirst capital
  · rcases List.infix_cons_iff.mp behind with here | behind
    · simp at here
    · rcases infix_of_seam (.inr fun c member => digits (List.mem_of_head? member)) behind with
        within | number
      · exact within
      · exact absurd dash_mem_dashes (digits (number.subset dash_mem_dashes))

/-! ## Two styles -/

namespace Conventions

section Shared

variable {first second : Conventions} {source next : NameSource}
  {given baseName other otherBase : Value} {style twin : Style}

/-- A class name is the root class with separated segments behind it. -/
theorem mem_classNames (compiled : (first.compile source given baseName).1 = .ok style)
    {className : String} (member : className ∈ style.classNames) :
    ∃ path, className.toList = style.name.toList ++ separated first.separator.toList path := by
  rcases List.mem_cons.mp member with rfl | below
  · exact ⟨[], by simp [separated]⟩
  · obtain ⟨variant, listed, rfl⟩ := List.mem_map.mp below
    rw [(variant_of_compiled compiled listed).2.1, toList_modifierClass]
    exact ⟨_, rfl⟩

/-- Two styles share a class only if the root class of one goes on with two dashes behind that of the
other. -/
theorem continues_of_sharesClass (compiled : (first.compile source given baseName).1 = .ok style)
    (others : (second.compile next other otherBase).1 = .ok twin)
    (separator : first.separator = "--") (otherSeparator : second.separator = "--")
    (nonneg : 0 ≤ source.next) (later : source.next < next.next) (shares : style.SharesClass twin) :
    ContinuesBehind "--" style.name twin.name ∨ ContinuesBehind "--" twin.name style.name := by
  obtain ⟨className, member, otherMember⟩ := shares
  obtain ⟨path, split⟩ := mem_classNames compiled member
  obtain ⟨otherPath, otherSplit⟩ := mem_classNames others otherMember
  rw [separator] at split
  rw [otherSeparator] at otherSplit
  have named := (name_of_compiled compiled).2
  have otherNamed := (name_of_compiled others).2
  have differ : style.name.toList ≠ twin.name.toList := by
    intro same
    rw [named, otherNamed] at same
    have number := number_of_issuedName (String.toList_inj.mp same)
    omega
  simp only [ContinuesBehind, String.toList_append]
  apply Or.symm
  apply prefix_of_append_separated _ _ differ (split.symm.trans otherSplit)
  · rw [named]
    exact fun c ending => digit_not_mem_dashes (getLast?_issuedName nonneg c ending)
  · rw [otherNamed]
    exact fun c ending => digit_not_mem_dashes (getLast?_issuedName (by omega) c ending)

/-- A root class that goes on with two dashes behind another is issued for a base that holds them. -/
theorem occursIn_of_continues (compiled : (first.compile source given baseName).1 = .ok style)
    (nonneg : 0 ≤ source.next) {name : String} (continues : ContinuesBehind "--" style.name name) :
    occursIn "--".toList style.baseName.toList = true := by
  apply occursIn_iff.mpr
  apply dashes_infix_of_issuedName nonneg
  rw [← (name_of_compiled compiled).2]
  rw [ContinuesBehind, String.toList_append] at continues
  exact (List.suffix_append _ _).isInfix.trans continues.isInfix

end Shared

/-! ## A class for two -/

/-- Scopes in one another, with the names given and nothing else in them. -/
def nestedScopes : List String → Spec Key
  | [] => .nil
  | name :: rest => .scope (.ofText name) none (nestedScopes rest) .nil

private theorem nestedScopes_read (path : List String) :
    (nestedScopes path).toValue.spec? = some ((nestedScopes path).mapKeys Key.toValue) := by
  apply congrArg some
  induction path with
  | nil => rfl
  | cons name rest ih =>
    simp only [nestedScopes, Spec.toEntries, Spec.held, Spec.ofEntries, Spec.ofEntry, Spec.mapKeys, ih]

private theorem nestedScopes_settled (path : List String) :
    (nestedScopes path).settled = nestedScopes path := by
  induction path with
  | nil => rfl
  | cons name rest ih => simp only [nestedScopes, Spec.settled, ih]

private theorem nestedScopes_snapshot (path : List String) :
    (nestedScopes path).toValue.snapshot [] = .ok (nestedScopes path) := by
  rw [Value.snapshot_of_spec? (nestedScopes_read path), Spec.snapshot_mapKeys, nestedScopes_settled]

private theorem nestedScopes_bare (path : List String) :
    ∀ scope ∈ (nestedScopes path).scopes, scope.2.leaves = [] := by
  have below (above : List String) :
      ∀ scope ∈ (nestedScopes path).scopesBelow above, scope.2.leaves = [] := by
    induction path generalizing above with
    | nil => simp [nestedScopes, Spec.scopesBelow]
    | cons name rest ih =>
      have inside : (nestedScopes rest).leaves = [] := by cases rest <;> rfl
      simpa [nestedScopes, Spec.scopesBelow, Key.ofText, inside] using ih (above ++ [name])
  have root : (nestedScopes path).leaves = [] := by cases path <;> rfl
  exact List.forall_mem_cons.mpr ⟨root, below []⟩

private theorem nestedScopes_names (path : List String) :
    (nestedScopes path).variantNames.map (·.text) = path := by
  induction path with
  | nil => rfl
  | cons name rest ih => simpa [nestedScopes, Spec.variantNames, Key.ofText] using ih

/-- The path through all of the scopes leads to the innermost. -/
private theorem nestedScopes_reaches {path : List String} (below : path ≠ []) (above : List String) :
    above ++ path ∈ ((nestedScopes path).scopesBelow above).map (·.1) := by
  induction path generalizing above with
  | nil => exact absurd rfl below
  | cons name rest ih =>
    cases rest with
    | nil => simp [nestedScopes, Spec.scopesBelow, Key.ofText]
    | cons other rest =>
      have inside := ih (List.cons_ne_nil other rest) (above ++ [name])
      rw [nestedScopes, Spec.scopesBelow, List.map_cons, List.map_append]
      apply List.mem_cons_of_mem
      apply List.mem_append_left
      simpa [Key.ofText] using inside

private theorem nestedScopes_compiles (conventions : Conventions) (source : NameSource)
    {baseName : Value} {name : String} (named : checkedBaseName baseName = .ok name)
    (path : List String)
    (avoid : ∀ segment ∈ path, occursIn conventions.separator.toList segment.toList = false) :
    ∃ style, (conventions.compile source (nestedScopes path).toValue baseName).1 = .ok style ∧
      (path ≠ [] → modifierClass conventions.separator style.name path ∈ style.classNames) := by
  have names : ∀ key ∈ (nestedScopes path).variantNames,
      occursIn conventions.separator.toList key.text.toList = false := by
    intro key member
    apply avoid
    rw [← nestedScopes_names path]
    exact List.mem_map_of_mem member
  obtain ⟨style, compiled⟩ := exists_compiled_of_bare source named (nestedScopes_snapshot path)
    (nestedScopes_bare path) names
  have checked : style.spec = nestedScopes path :=
    Except.ok.inj ((outline_of_compiled compiled).1.symm.trans (nestedScopes_snapshot path))
  refine ⟨style, compiled, fun below => List.mem_cons_of_mem _ ?_⟩
  have reached : path ∈ (style.spec.scopesBelow []).map (·.1) := by
    rw [checked]
    exact nestedScopes_reaches below []
  exact List.mem_map.mpr ⟨_, modifier_of_path compiled reached, rfl⟩

/-- If the name that is next for one base goes on with the separator behind the name that is next for
another, then there is a spec for the latter that makes the former a class of a variant. -/
theorem exists_shared (first second : Conventions) (source next : NameSource)
    {baseName otherBase : Value} {base other : String} (proper : first.separator ≠ "")
    (named : checkedBaseName baseName = .ok base) (otherNamed : checkedBaseName otherBase = .ok other)
    (continues : ContinuesBehind first.separator (issuedName other next.next)
      (issuedName base source.next)) :
    ∃ path style, (first.compile source (nestedScopes path).toValue baseName).1 = .ok style ∧
      ∀ given twin, (second.compile next given otherBase).1 = .ok twin → style.SharesClass twin := by
  obtain ⟨rest, split⟩ := continues
  obtain ⟨segments, below, avoid, made⟩ :=
    exists_separated (fun empty => proper (String.toList_eq_nil_iff.mp empty)) rest
  have texts : (segments.map String.ofList).map String.toList = segments := by simp [Function.comp_def]
  obtain ⟨style, compiled, holds⟩ := nestedScopes_compiles first source named _
    (List.forall_mem_map.mpr fun segment member => by
      rw [String.toList_ofList]
      exact avoid segment member)
  refine ⟨_, style, compiled, fun given twin others => ⟨_, holds (by simpa using below), ?_⟩⟩
  obtain ⟨checked, name⟩ := name_of_compiled compiled
  obtain ⟨otherChecked, otherName⟩ := name_of_compiled others
  rw [← Except.ok.inj (named.symm.trans checked)] at name
  rw [← Except.ok.inj (otherNamed.symm.trans otherChecked)] at otherName
  have same : modifierClass first.separator style.name (segments.map String.ofList) = twin.name := by
    apply String.toList_injective
    rw [toList_modifierClass, texts, made, name, otherName, ← split, String.toList_append,
      List.append_assoc]
  rw [same]
  exact List.mem_cons_self

end Conventions

/-! ## Compiling in turn -/

/-- Whether the root class of a style goes on with two dashes behind that of another; the dashes are
then in its base name. -/
def Style.Intrudes (style other : Style) : Prop :=
  ContinuesBehind "--" style.name other.name ∧ occursIn "--".toList style.baseName.toList = true

/-- Of styles that are made in turn two share a class only if one intrudes on the other: the second has
the higher number, so their root classes differ. -/
theorem pairwise_compileInTurn {source : NameSource} (nonneg : 0 ≤ source.next)
    (requests : List CompileRequest)
    (dashed : ∀ request ∈ requests, request.conventions.separator = "--") :
    (compileInTurn source requests).Pairwise fun result other => ∀ style twin,
      result = .ok style → other = .ok twin → style.SharesClass twin →
        style.Intrudes twin ∨ twin.Intrudes style := by
  induction requests generalizing source with
  | nil => exact .nil
  | cons request others ih =>
    obtain ⟨separator, dashed⟩ := List.forall_mem_cons.mp dashed
    have before := request.next_le source
    refine .cons ?_ (ih (by omega) dashed)
    intro other member style twin made otherMade shares
    obtain ⟨later, listed, reached, further, rfl⟩ := mem_compileInTurn member
    have past : source.next + 1 ≤ reached.next := by
      rw [CompileRequest.source_of_compiled made] at further
      exact further
    rcases Conventions.continues_of_sharesClass made otherMade separator (dashed later listed) nonneg
        past shares with continues | continues
    · exact .inl ⟨continues, Conventions.occursIn_of_continues made nonneg continues⟩
    · exact .inr ⟨continues, Conventions.occursIn_of_continues otherMade (by omega) continues⟩

/-- A base name with which every name goes on with a separator behind the name of a base and a
number. -/
def intrudingBase (separator base : String) (number : Int) : String :=
  base ++ "_" ++ base ++ number.repr ++ separator

theorem continuesBehind_intrudingBase (separator : String) {base : String} (proper : base ≠ "")
    (number next : Int) : ContinuesBehind separator
      (issuedName (intrudingBase separator base number) next) (issuedName base number) := by
  cases split : base.toList with
  | nil => exact absurd (String.toList_eq_nil_iff.mp split) proper
  | cons first rest =>
    have longer : (intrudingBase separator base number).toList =
        first :: (rest ++ '_' :: (base.toList ++ number.repr.toList ++ separator.toList)) := by
      simp [intrudingBase, String.toList_append, split]
    rw [ContinuesBehind, String.toList_append, toList_issuedName, toList_issuedName,
      toList_capitalizeFirst_cons split, toList_capitalizeFirst_cons longer]
    exact ⟨'_' :: ((intrudingBase separator base number).toList ++ next.repr.toList), by simp⟩

private theorem compileInTurn_pair {source : NameSource} {request other : CompileRequest}
    {style twin : Style} (made : (request.compile source).1 = .ok style)
    (otherMade : (other.compile ⟨source.next + 1⟩).1 = .ok twin) :
    compileInTurn source [request, other] = [.ok style, .ok twin] := by
  rw [compileInTurn, compileInTurn, compileInTurn, made, CompileRequest.source_of_compiled made,
    otherMade]

/-- Against every base name there is an intruding one. -/
private theorem exists_sharing_pair (start : Int) {base : String} (proper : base ≠ "") :
    ∃ given other style twin,
      compileInTurn ⟨start⟩ [⟨{}, given, .text base⟩, ⟨{}, .map [], .text other⟩] =
        [.ok style, .ok twin] ∧ style.SharesClass twin := by
  have passes {text : String} (nonempty : text ≠ "") : checkedBaseName (.text text) = .ok text :=
    if_neg (by simpa using nonempty)
  have otherProper : intrudingBase "--" base start ≠ "" := by simp [intrudingBase]
  obtain ⟨path, style, compiled, shared⟩ := Conventions.exists_shared {} {} ⟨start⟩ ⟨start + 1⟩
    (by decide) (passes proper) (passes otherProper)
    (continuesBehind_intrudingBase "--" proper start (start + 1))
  obtain ⟨twin, made, _⟩ := Conventions.nestedScopes_compiles {} ⟨start + 1⟩ (passes otherProper) []
    (by simp)
  exact ⟨_, _, style, twin, compileInTurn_pair compiled made, shared _ twin made⟩

/-- **Two styles share a class only where a base name holds the separator.** Compilers with two dashes
for a separator make styles in turn, with names from one source that does not start below zero. Two of
the styles have a class name in common only if one intrudes on the other: its root class goes on with
two dashes behind that of the other, and its base name holds them. Wherever a name is so placed, there
is a spec for the other base that makes it the class of a variant, whatever is compiled under the name
itself; and against every base name, with whatever number, there is one that is so placed. -/
theorem classes_shared_only_by_intrusion {start : Int} (nonneg : 0 ≤ start) :
    (∀ requests : List CompileRequest,
      (∀ request ∈ requests, request.conventions.separator = "--") →
      (compileInTurn ⟨start⟩ requests).Pairwise fun result other => ∀ style twin,
        result = .ok style → other = .ok twin → style.SharesClass twin →
          style.Intrudes twin ∨ twin.Intrudes style) ∧
    (∀ (first second : Conventions) (source next : NameSource) (baseName otherBase : Value)
      (base other : String), first.separator = "--" → checkedBaseName baseName = .ok base →
      checkedBaseName otherBase = .ok other →
      ContinuesBehind "--" (issuedName other next.next) (issuedName base source.next) →
      ∃ given style, (first.compile source given baseName).1 = .ok style ∧
        ∀ last twin, (second.compile next last otherBase).1 = .ok twin → style.SharesClass twin) ∧
    ∀ base : String, base ≠ "" → ∃ given other style twin,
      compileInTurn ⟨start⟩ [⟨{}, given, .text base⟩, ⟨{}, .map [], .text other⟩] =
        [.ok style, .ok twin] ∧ style.SharesClass twin := by
  refine ⟨pairwise_compileInTurn nonneg, ?_, fun base => exists_sharing_pair start⟩
  intro first second source next baseName otherBase base other separator named otherNamed continues
  rw [← separator] at continues
  obtain ⟨path, style, compiled, shared⟩ := Conventions.exists_shared first second source next
    (by simp [separator]) named otherNamed continues
  exact ⟨_, style, compiled, shared⟩

private def plainRequests : List CompileRequest :=
  [⟨{}, .map [(.text "_a_a1", .map [(.text "2", .map [])])], .text "a"⟩,
    ⟨{}, .map [], .text "a_a1-"⟩]

/-- With one dash at the end a base name does not intrude, and with two it can. -/
theorem classes_shared_only_by_intrusion_of_fresh :
    ((compileInTurn .fresh plainRequests).Pairwise fun result other => ∀ style twin,
      result = .ok style → other = .ok twin → ¬ style.SharesClass twin) ∧
    ∃ given other style twin,
      compileInTurn .fresh [⟨{}, given, .text "a"⟩, ⟨{}, .map [], .text other⟩] =
        [.ok style, .ok twin] ∧ style.SharesClass twin := by
  obtain ⟨apart, _, sharing⟩ := classes_shared_only_by_intrusion (by decide : (0 : Int) ≤ 1)
  refine ⟨?_, sharing "a" (by decide)⟩
  have dashless : ∀ result ∈ compileInTurn .fresh plainRequests, ∀ style, result = .ok style →
      occursIn "--".toList style.baseName.toList = false := by
    have checked : ((compileInTurn .fresh plainRequests).all fun result =>
        result.toOption.all fun style => !occursIn "--".toList style.baseName.toList) = true := by
      decide +kernel
    rintro _ member style rfl
    simpa [Except.toOption] using List.all_eq_true.mp checked _ member
  refine (apart plainRequests (by simp [plainRequests])).imp_of_mem ?_
  intro result other member otherMember rule style twin made otherMade shares
  rcases rule style twin made otherMade shares with ⟨_, holds⟩ | ⟨_, holds⟩
  · rw [dashless result member style made] at holds
    cases holds
  · rw [dashless other otherMember twin otherMade] at holds
    cases holds

/-- The root class of the second style is the class of a variant of the first. -/
example :
    (compileInTurn .fresh
      [⟨{}, .map [(.text "_a_a1", .map [(.text "2", .map [])])], .text "a"⟩,
        ⟨{}, .map [], .text "a_a1--"⟩]).map (·.toOption.map Style.classNames) =
      [some ["A_a1", "A_a1--_a_a1", "A_a1--_a_a1--2"], some ["A_a1--_a_a1--2"]] := by
  decide +kernel

end ScopedStyle
