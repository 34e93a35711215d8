import ScopedStyle.Proofs.RootNames

/-! Compilers that take their names from one source. What a compiler is asked for comes out the same
wherever it stands among the requests that the others are given: the same fault, or a style that
differs from any other that the request is answered with in the number of its root class alone. -/
namespace ScopedStyle

/-- What is to be compiled, and by which conventions. -/
structure CompileRequest where
  conventions : Conventions
  spec : Value
  baseName : Value

/-- The result of a request that is given a source for its name, and the source after it. -/
def CompileRequest.compile (request : CompileRequest) (source : NameSource) :
    Except Fault Style × NameSource :=
  request.conventions.compile source request.spec request.baseName

/-- The results of requests that are met one after the other with names from one source. -/
def compileInTurn (source : NameSource) : List CompileRequest → List (Except Fault Style)
  | [] => []
  | request :: others =>
    (request.compile source).1 :: compileInTurn (request.compile source).2 others

/-- The same fault, or styles that agree but for their root classes, which are issued for the same
base name. -/
def AgreeUpToNumbers : Except Fault Style → Except Fault Style → Prop
  | .ok style, .ok other =>
    style.AgreesWith other ∧ ∃ number next,
      style.name = issuedName style.baseName number ∧ other.name = issuedName style.baseName next
  | .error fault, .error same => fault = same
  | _, _ => False

/-- A style has the name that is issued next for its base name, and this is the one that was given. -/
theorem Conventions.name_of_compiled {conventions : Conventions} {source : NameSource}
    {given baseName : Value} {style : Style}
    (compiled : (conventions.compile source given baseName).1 = .ok style) :
    checkedBaseName baseName = .ok style.baseName ∧
      style.name = issuedName style.baseName source.next := by
  obtain ⟨name, checked, named, _, made⟩ := compile_eq_ok.mp compiled
  obtain ⟨_, _, rfl⟩ := compileSnapshot_eq_ok.mp made
  exact ⟨named, rfl⟩

/-- From whatever sources its names come, a compilation has the same result up to their numbers. -/
theorem CompileRequest.agree (request : CompileRequest) (source next : NameSource) :
    AgreeUpToNumbers (request.compile source).1 (request.compile next).1 := by
  cases ran : (request.compile source).1 with
  | error fault =>
    have same : (request.compile next).1 = .error fault := Conventions.compileChecked_fault ran next
    rw [same]
    rfl
  | ok style =>
    obtain ⟨twin, again, agrees⟩ : ∃ twin, (request.compile next).1 = .ok twin ∧
        style.AgreesWith twin := Conventions.compileChecked_agrees ran next
    rw [again]
    have named := (Conventions.name_of_compiled ran).2
    have renamed := (Conventions.name_of_compiled again).2
    rw [← agrees.1] at renamed
    exact ⟨agrees, _, _, named, renamed⟩

/-- Each request in its turn has the result that it has with some source. -/
theorem getElem?_compileInTurn (source : NameSource) (requests : List CompileRequest) (turn : Nat) :
    ∃ reached, (compileInTurn source requests)[turn]? =
      requests[turn]?.map fun request => (request.compile reached).1 := by
  induction requests generalizing source turn with
  | nil => exact ⟨source, rfl⟩
  | cons request others ih =>
    cases turn with
    | zero => exact ⟨source, rfl⟩
    | succ turn => exact ih (request.compile source).2 turn

theorem CompileRequest.next_le (request : CompileRequest) (source : NameSource) :
    source.next ≤ (request.compile source).2.next := by
  simp only [compile, Conventions.compile]
  cases checkedInput request.baseName (request.spec.snapshot []) with
  | error fault => exact Int.le_refl _
  | ok input =>
    simp only [Conventions.compileChecked, NameSource.issue]
    omega

theorem CompileRequest.source_of_compiled {request : CompileRequest} {source : NameSource}
    {style : Style} (made : (request.compile source).1 = .ok style) :
    (request.compile source).2 = ⟨source.next + 1⟩ := by
  simp only [compile, Conventions.compile] at made ⊢
  cases input : checkedInput request.baseName (request.spec.snapshot []) with
  | error fault =>
    rw [input] at made
    cases made
  | ok input => rfl

/-- Every result is that of one of the requests, with a source that has not gone back. -/
theorem mem_compileInTurn {source : NameSource} {requests : List CompileRequest}
    {result : Except Fault Style} (member : result ∈ compileInTurn source requests) :
    ∃ request ∈ requests, ∃ reached : NameSource,
      source.next ≤ reached.next ∧ result = (request.compile reached).1 := by
  induction requests generalizing source with
  | nil => cases member
  | cons request others ih =>
    rcases List.mem_cons.mp member with rfl | later
    · exact ⟨request, List.mem_cons_self, source, Int.le_refl _, rfl⟩
    · obtain ⟨other, listed, reached, further, same⟩ := ih later
      have before := request.next_le source
      exact ⟨other, List.mem_cons_of_mem _ listed, reached, by omega, same⟩

/-- **Compiling has to do with the source of names by the root class alone.** Two compilations of one
spec under one base name, with names from any two sources, both fail with the same fault, or both give
a style, with the same base name, checked spec, paths and declarations, and with class names and
selectors that differ only in the root class in front; which selectors are dropped as duplicates is
the same below every root class. So a request that stands anywhere among some requests to compilers
that share a source, and anywhere among others, is met with the same result up to the number of the
root class. -/
theorem compiling_depends_on_root_class_alone :
    (∀ (conventions : Conventions) (given baseName : Value) (source next : NameSource),
      AgreeUpToNumbers (conventions.compile source given baseName).1
        (conventions.compile next given baseName).1) ∧
    (∀ (table : PseudoClasses) (separator : String) (path : List String),
      ∃ suffixes : List String, ∀ root,
        ("." ++ modifierClass separator root path) :: table.splitSelectors separator root path =
            suffixes.map (("." ++ root) ++ ·) ∧
          table.variantSelectors separator root path =
            suffixes.eraseDups.map (("." ++ root) ++ ·)) ∧
    ∀ (source next : NameSource) (requests others : List CompileRequest) (turn later : Nat)
      (request : CompileRequest), requests[turn]? = some request → others[later]? = some request →
      ∃ result other, (compileInTurn source requests)[turn]? = some result ∧
        (compileInTurn next others)[later]? = some other ∧ AgreeUpToNumbers result other := by
  refine ⟨?_, PseudoClasses.variantSelectors_suffixes, ?_⟩
  · intro conventions given baseName source next
    exact CompileRequest.agree ⟨conventions, given, baseName⟩ source next
  · intro source next requests others turn later request here there
    obtain ⟨reached, first⟩ := getElem?_compileInTurn source requests turn
    obtain ⟨arrived, second⟩ := getElem?_compileInTurn next others later
    rw [here, Option.map_some] at first
    rw [there, Option.map_some] at second
    exact ⟨_, _, first, second, request.agree reached arrived⟩

private def hoverRequest : CompileRequest :=
  ⟨{}, .map [(.text "color", .text "red"), (.text "hover", .map [])], .text "a"⟩

/-- A request that takes a name and then fails at a value. -/
private def brokenRequest : CompileRequest :=
  ⟨{}, .map [(.text "color", .null)], .text "b"⟩

/-- Asked for after the broken one, the style has a higher number and is the same otherwise. -/
theorem compiling_depends_on_root_class_alone_of_two_orders :
    ∃ result other,
      (compileInTurn .fresh [hoverRequest, brokenRequest])[0]? = some result ∧
      (compileInTurn .fresh [brokenRequest, hoverRequest])[1]? = some other ∧
      AgreeUpToNumbers result other ∧
      result.toOption.map (·.name) = some "A_a1" ∧ other.toOption.map (·.name) = some "A_a2" := by
  obtain ⟨result, other, first, second, agree⟩ := compiling_depends_on_root_class_alone.2.2
    .fresh .fresh [hoverRequest, brokenRequest] [brokenRequest, hoverRequest] 0 1 hoverRequest rfl rfl
  have named : ((compileInTurn .fresh [hoverRequest, brokenRequest])[0]?.bind fun result =>
      result.toOption.map (·.name)) = some "A_a1" := by decide +kernel
  have renamed : ((compileInTurn .fresh [brokenRequest, hoverRequest])[1]?.bind fun result =>
      result.toOption.map (·.name)) = some "A_a2" := by decide +kernel
  rw [first, Option.bind_some] at named
  rw [second, Option.bind_some] at renamed
  exact ⟨result, other, first, second, agree, named, renamed⟩

end ScopedStyle
