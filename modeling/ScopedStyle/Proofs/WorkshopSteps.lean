import Mathlib.Tactic.ByContra
import ScopedStyle.Workshop

/-! Steps of a workshop: a command with the workshop that it is given to. What a step can do is said
once, by cases, and from this it is told which names and numbers a step takes from a source, what it
leaves of the counters, and which styles are there after it. -/
namespace ScopedStyle

/-- A compilation that a command begins: the compiler that has to do it, and what its checks leave of
the base name and the spec. -/
structure Attempt where
  compiler : CompilerRef
  input : Except Fault (String × Spec Key)

/-- A command with the workshop that it is given to. -/
structure Step where
  before : Workshop
  command : Command

/-- The number that a command gives to a source to begin with. -/
def Command.start? : Command → Option Int
  | .addSource start => some start
  | _ => none

namespace Workshop

/-- The number of the next name from a source, if there is such a source. -/
def counter? (workshop : Workshop) : SourceRef → Option Int
  | none => some workshop.shared.next
  | some number => workshop.sources[number]?.map (·.next)

/-- The number that a source begins with in a run: the one it has before, or that of the command
which adds it. -/
def start? (workshop : Workshop) (commands : List Command) : SourceRef → Option Int
  | none => some workshop.shared.next
  | some number => (workshop.sources.map (·.next) ++ commands.filterMap Command.start?)[number]?

/-- The workshop after a number of a source has been used. -/
def advance (workshop : Workshop) (ref : SourceRef) : Workshop :=
  workshop.setSource ref ⟨(workshop.source ref).next + 1⟩

/-- The compilation that an override begins, if the patch can be merged. -/
def overriding? (compiler : CompilerRef) (base : OverrideBase) (patch baseName : Value) :
    Option Attempt :=
  match base.merged patch baseName with
  | .ok (spec, name) => some ⟨compiler, checkedInput name (spec.snapshot [])⟩
  | .error _ => none

/-- The compilation that a command begins. -/
def attempt? (workshop : Workshop) : Command → Option Attempt
  | .compile compiler spec baseName =>
    some ⟨workshop.knownCompiler compiler, checkedInput baseName (spec.snapshot [])⟩
  | .overrideStyle compiler number patch baseName =>
    workshop.styles[number]?.bind fun held =>
      overriding? (workshop.knownCompiler compiler) (.style held.style) patch baseName
  | .overrideSpec compiler base patch baseName =>
    overriding? (workshop.knownCompiler compiler) (.spec base) patch baseName
  | .restyle number patch baseName =>
    workshop.styles[number]?.bind fun held =>
      overriding? held.compiler (.style held.style) patch baseName
  | _ => none

end Workshop

namespace Step

/-- What is answered to the command. -/
def answer (step : Step) : Except Fault Answer :=
  (step.before.run step.command).1

/-- The workshop after the command. -/
def after (step : Step) : Workshop :=
  (step.before.run step.command).2

/-- The source that a step asks for a name: the one that is told to issue it, or that of the compiler
which has to compile something. -/
def source? (step : Step) : Option SourceRef :=
  match step.command with
  | .issue ref _ => some (step.before.known ref)
  | command => (step.before.attempt? command).map fun attempt =>
      step.before.known (step.before.compiler attempt.compiler).source

/-- Whether a step is the issuing of a name from a source. -/
def issuesFrom (ref : SourceRef) (step : Step) : Bool :=
  match step.command with
  | .issue _ _ => step.source? == some ref
  | _ => false

/-- Whether a step is a compilation with a name from a source, of a base name and a spec that pass
their checks. -/
def compilesFrom (ref : SourceRef) (step : Step) : Bool :=
  match step.before.attempt? step.command with
  | some ⟨_, .ok _⟩ => step.source? == some ref
  | _ => false

/-- The name that a step hands out from a source, be it issued by itself or for a style. -/
def nameFrom? (ref : SourceRef) (step : Step) : Option String :=
  if step.source? = some ref then
    match step.answer with
    | .ok (.text name) => some name
    | .ok (.style style) => some style.name
    | _ => none
  else none

/-- A step in which a compiler makes a style: the name of the style is the one that the source of the
compiler issues next for the base name. -/
structure Mints (step : Step) (compiler : CompilerRef) (style : Style) : Prop where
  tried : ∃ input, step.before.attempt? step.command = some ⟨compiler, input⟩
  answered : step.answer = .ok (.style style)
  issued : (step.before.source (step.before.compiler compiler).source).issue style.baseName =
    (style.name, step.after.source (step.before.compiler compiler).source)

end Step

/-! ## Sources -/

namespace Workshop

variable {workshop : Workshop}

theorem known_some (workshop : Workshop) (number : Nat) :
    workshop.known (some number) =
      if number < workshop.sources.length then some number else none := by
  by_cases there : number < workshop.sources.length <;> simp [known, Option.filter, there]

theorem counter?_known (workshop : Workshop) (ref : SourceRef) :
    workshop.counter? (workshop.known ref) = some (workshop.source ref).next := by
  cases ref with
  | none => rfl
  | some number =>
    rw [known_some]
    split
    · next there => simp [counter?, source, there]
    · next beyond => simp [counter?, source, beyond]

@[simp] theorem length_sources_setSource (workshop : Workshop) (ref : SourceRef)
    (source : NameSource) :
    (workshop.setSource ref source).sources.length = workshop.sources.length := by
  cases ref with
  | none => rfl
  | some number =>
    simp only [setSource]
    split <;> simp

/-- Keeping a source as it is changes nothing. -/
@[simp] theorem setSource_source (workshop : Workshop) (ref : SourceRef) :
    workshop.setSource ref (workshop.source ref) = workshop := by
  cases ref with
  | none => rfl
  | some number =>
    by_cases there : number < workshop.sources.length
    · simp [setSource, source, there]
    · simp [setSource, source, there]

/-- Using a number of a source moves its counter by one, and no other. -/
theorem counter?_advance (workshop : Workshop) (ref other : SourceRef) :
    (workshop.advance ref).counter? other =
      if workshop.known ref = other then (workshop.counter? other).map (· + 1)
      else workshop.counter? other := by
  cases ref with
  | none => cases other <;> simp [advance, setSource, source, known, counter?]
  | some number =>
    rw [known_some]
    by_cases there : number < workshop.sources.length
    · cases other with
      | none => simp [advance, setSource, counter?, there]
      | some asked =>
        by_cases same : number = asked
        · subst same
          simp [advance, setSource, source, counter?, there]
        · simp [advance, setSource, counter?, there, same, List.getElem?_set_ne]
    · cases other <;> simp [advance, setSource, source, counter?, there]

/-- A source begins a run with the number that it has, or with that of the command that adds it. -/
theorem start?_eq (workshop : Workshop) (commands : List Command) (ref : SourceRef) :
    workshop.start? commands ref = (workshop.counter? ref).or (ref.bind fun number =>
      (commands.filterMap Command.start?)[number - workshop.sources.length]?) := by
  cases ref with
  | none => rfl
  | some number =>
    simp only [start?, counter?, List.getElem?_append, List.length_map, Option.bind_some]
    split
    · next there => simp [there]
    · next beyond => simp [List.getElem?_eq_none (Nat.le_of_not_lt beyond)]

theorem start?_of_counter? {ref : SourceRef} {number : Int}
    (there : workshop.counter? ref = some number) (commands : List Command) :
    workshop.start? commands ref = some number := by
  rw [start?_eq, there, Option.some_or]

theorem start?_advance (workshop : Workshop) (commands : List Command) (ref other : SourceRef) :
    (workshop.advance ref).start? commands other =
      if workshop.known ref = other then (workshop.start? commands other).map (· + 1)
      else workshop.start? commands other := by
  rw [start?_eq, start?_eq, counter?_advance]
  simp only [advance, length_sources_setSource]
  split
  · next same =>
    rw [← same, counter?_known]
    rfl
  · rfl

theorem start?_cons_of_none {command : Command} (adds : command.start? = none)
    (commands : List Command) (ref : SourceRef) :
    workshop.start? (command :: commands) ref = workshop.start? commands ref := by
  cases ref with
  | none => rfl
  | some number => rw [start?, start?, List.filterMap_cons, adds]

@[simp] theorem styles_advance (workshop : Workshop) (ref : SourceRef) :
    (workshop.advance ref).styles = workshop.styles := by
  simp only [advance, setSource]
  split
  · rfl
  · split <;> rfl

@[simp] theorem compilers_advance (workshop : Workshop) (ref : SourceRef) :
    (workshop.advance ref).compilers = workshop.compilers := by
  simp only [advance, setSource]
  split
  · rfl
  · split <;> rfl

theorem source_advance (workshop : Workshop) (ref : SourceRef) :
    (workshop.advance ref).source ref = ⟨(workshop.source ref).next + 1⟩ := by
  cases ref with
  | none => rfl
  | some number =>
    by_cases there : number < workshop.sources.length
    · simp [advance, setSource, source, there]
    · simp [advance, setSource, source, there]

end Workshop

/-! ## What a step can do -/

/-- What can come of a command: the answer and the workshop after it. -/
inductive Effect (workshop : Workshop) : Command → Except Fault Answer → Workshop → Prop where
  | sourceAdded (start : Int) :
      Effect workshop (.addSource start) (.ok (.number workshop.sources.length))
        { workshop with sources := workshop.sources ++ [⟨start⟩] }
  | compilerAdded (conventions : Conventions) (ref : SourceRef) :
      Effect workshop (.addCompiler conventions ref) (.ok (.number workshop.compilers.length))
        { workshop with compilers := workshop.compilers ++ [⟨conventions, workshop.known ref⟩] }
  | issued (ref : SourceRef) (base : String) :
      Effect workshop (.issue ref base)
        (.ok (.text (issuedName base (workshop.source ref).next))) (workshop.advance ref)
  /-- The base name or the spec does not pass its check. -/
  | refused (tried : workshop.attempt? command = some ⟨compiler, .error fault⟩) :
      Effect workshop command (.error fault) workshop
  /-- The checks are passed, and the compilation fails after a name has been issued for it. -/
  | failed (tried : workshop.attempt? command = some ⟨compiler, .ok (base, spec)⟩)
      (ran : (workshop.compiler compiler).conventions.compileSnapshot
        (issuedName base (workshop.source (workshop.compiler compiler).source).next) base spec =
          .error fault) :
      Effect workshop command (.error fault)
        (workshop.advance (workshop.compiler compiler).source)
  | made (tried : workshop.attempt? command = some ⟨compiler, .ok (base, spec)⟩)
      (ran : (workshop.compiler compiler).conventions.compileSnapshot
        (issuedName base (workshop.source (workshop.compiler compiler).source).next) base spec =
          .ok style) :
      Effect workshop command (.ok (.style style))
        { workshop.advance (workshop.compiler compiler).source with
          styles := workshop.styles ++ [⟨style, compiler⟩] }
  | detached (there : workshop.styles[number]? = some held) :
      Effect workshop (.detach number) (.ok (.style held.style))
        { workshop with styles := workshop.styles ++ [{ held with compiler := none }] }
  /-- Nothing is added, issued or compiled: something is asked, or what is meant is not there, or a
  patch cannot be merged. -/
  | unchanged (untried : workshop.attempt? command = none)
      (issues : ∀ ref base, command ≠ .issue ref base) (adds : command.start? = none) :
      Effect workshop command answer workshop

namespace Workshop

variable {workshop : Workshop}

/-- A compilation that is begun ends in one of three ways. -/
private theorem effect_of_attempt {command : Command} {attempt : Attempt}
    (tried : workshop.attempt? command = some attempt)
    (runs : workshop.run command = workshop.make attempt.compiler fun conventions source =>
      conventions.compileChecked source attempt.input) :
    Effect workshop command (workshop.run command).1 (workshop.run command).2 := by
  obtain ⟨compiler, input⟩ := attempt
  rw [runs]
  cases input with
  | error fault =>
    simp only [make, Conventions.compileChecked, setSource_source]
    exact .refused tried
  | ok checked =>
    obtain ⟨base, spec⟩ := checked
    simp only [make, Conventions.compileChecked, NameSource.issue]
    cases ran : (workshop.compiler compiler).conventions.compileSnapshot
        (issuedName base (workshop.source (workshop.compiler compiler).source).next) base spec with
    | error fault => exact .failed tried ran
    | ok style =>
      have effect := Effect.made tried ran
      rw [← styles_advance workshop (workshop.compiler compiler).source] at effect
      exact effect

/-- An override compiles what the merge comes to, or is over if the merge fails. -/
private theorem effect_of_override {command : Command} {compiler : CompilerRef}
    {base : OverrideBase} {patch baseName : Value}
    (tried : workshop.attempt? command = overriding? compiler base patch baseName)
    (runs : workshop.run command = workshop.make compiler fun conventions source =>
      conventions.override source base patch baseName)
    (issues : ∀ ref base, command ≠ .issue ref base) (adds : command.start? = none) :
    Effect workshop command (workshop.run command).1 (workshop.run command).2 := by
  cases merged : base.merged patch baseName with
  | error fault =>
    have untried : workshop.attempt? command = none := by
      rw [tried, overriding?, merged]
    rw [runs]
    simp only [make, Conventions.override, merged, setSource_source]
    exact .unchanged untried issues adds
  | ok result =>
    obtain ⟨spec, name⟩ := result
    apply effect_of_attempt
    · rw [tried, overriding?, merged]
    · rw [runs]
      simp only [make, Conventions.override, merged, Conventions.compileSpec]

private theorem style_eq_of_getElem? {number : Nat} {held : WorkshopStyle}
    (there : workshop.styles[number]? = some held) : workshop.style number = .ok held := by
  rw [style, there]

private theorem style_eq_of_none {number : Nat} (absent : workshop.styles[number]? = none) :
    workshop.style number = .error (.unknownNumber number) := by
  rw [style, absent]

/-- A style that is there is overridden like a spec, and without it nothing happens. -/
private theorem effect_of_style {command : Command} {compiler : WorkshopStyle → CompilerRef}
    {number : Nat} {patch baseName : Value}
    (tried : workshop.attempt? command = workshop.styles[number]?.bind fun held =>
      overriding? (compiler held) (.style held.style) patch baseName)
    (runs : workshop.run command =
      match workshop.style number with
      | .ok held => workshop.make (compiler held) fun conventions source =>
          conventions.override source (.style held.style) patch baseName
      | .error fault => (.error fault, workshop))
    (issues : ∀ ref base, command ≠ .issue ref base) (adds : command.start? = none) :
    Effect workshop command (workshop.run command).1 (workshop.run command).2 := by
  cases there : workshop.styles[number]? with
  | none =>
    rw [there, Option.bind_none] at tried
    rw [runs, style_eq_of_none there]
    exact .unchanged tried issues adds
  | some held =>
    rw [there, Option.bind_some] at tried
    rw [style_eq_of_getElem? there] at runs
    exact effect_of_override tried runs issues adds

/-- Every command has one of the effects. -/
theorem run_effect (workshop : Workshop) (command : Command) :
    Effect workshop command (workshop.run command).1 (workshop.run command).2 := by
  cases command with
  | addSource start => exact .sourceAdded start
  | addCompiler conventions ref => exact .compilerAdded conventions ref
  | issue ref base => exact .issued ref base
  | compile compiler spec baseName => exact effect_of_attempt rfl rfl
  | overrideSpec compiler base patch baseName =>
    exact effect_of_override rfl rfl (fun _ _ => Command.noConfusion) rfl
  | overrideStyle compiler number patch baseName =>
    exact effect_of_style rfl rfl (fun _ _ => Command.noConfusion) rfl
  | restyle number patch baseName =>
    exact effect_of_style rfl rfl (fun _ _ => Command.noConfusion) rfl
  | detach number =>
    cases there : workshop.styles[number]? with
    | none =>
      rw [run, style_eq_of_none there]
      exact .unchanged rfl (fun _ _ => Command.noConfusion) rfl
    | some held =>
      rw [run, style_eq_of_getElem? there]
      exact .detached there
  | equal number other =>
    have same : (workshop.run (.equal number other)).2 = workshop := by
      rw [run]
      split <;> rfl
    rw [same]
    exact .unchanged rfl (fun _ _ => Command.noConfusion) rfl
  | upcoming ref => exact .unchanged rfl (fun _ _ => Command.noConfusion) rfl
  | view number | variants number | sheet number | classAttribute number flags named =>
    exact .unchanged rfl (fun _ _ => Command.noConfusion) rfl

end Workshop

/-! ## One step -/

section Drawing

variable {workshop : Workshop} {command : Command} {ref : SourceRef}

private theorem not_issue_of_tried {attempt : Attempt}
    (tried : workshop.attempt? command = some attempt) (source : SourceRef) (base : String) :
    command ≠ .issue source base := by
  rintro rfl
  cases tried

theorem Command.start?_of_tried {attempt : Attempt}
    (tried : workshop.attempt? command = some attempt) : command.start? = none := by
  cases command with
  | addSource start => cases tried
  | _ => rfl

namespace Step

/-- How many numbers of a source a step uses. -/
def draws (ref : SourceRef) (step : Step) : Nat :=
  (if step.issuesFrom ref then 1 else 0) + if step.compilesFrom ref then 1 else 0

theorem source?_of_tried {compiler : CompilerRef} {input : Except Fault (String × Spec Key)}
    (tried : workshop.attempt? command = some ⟨compiler, input⟩) :
    source? ⟨workshop, command⟩ = some (workshop.known (workshop.compiler compiler).source) := by
  unfold source?
  split
  · next same => exact absurd same (not_issue_of_tried tried _ _)
  · rw [tried, Option.map_some]

theorem source?_of_untried (untried : workshop.attempt? command = none)
    (issues : ∀ source base, command ≠ .issue source base) :
    source? ⟨workshop, command⟩ = none := by
  unfold source?
  split
  · next same => exact absurd same (issues _ _)
  · rw [untried, Option.map_none]

theorem draws_of_issue (source : SourceRef) (base : String) :
    draws ref ⟨workshop, .issue source base⟩ = if workshop.known source = ref then 1 else 0 := by
  simp [draws, issuesFrom, compilesFrom, source?, Workshop.attempt?]

private theorem draws_of_not_issue (issues : ∀ source base, command ≠ .issue source base) :
    draws ref ⟨workshop, command⟩ = if compilesFrom ref ⟨workshop, command⟩ then 1 else 0 := by
  have none : issuesFrom ref ⟨workshop, command⟩ = false := by
    unfold issuesFrom
    split
    · next same => exact absurd same (issues _ _)
    · rfl
  simp [draws, none]

theorem draws_of_checked {compiler : CompilerRef} {checked : String × Spec Key}
    (tried : workshop.attempt? command = some ⟨compiler, .ok checked⟩) :
    draws ref ⟨workshop, command⟩ =
      if workshop.known (workshop.compiler compiler).source = ref then 1 else 0 := by
  rw [draws_of_not_issue (not_issue_of_tried tried)]
  simp only [compilesFrom, tried, source?_of_tried tried, beq_iff_eq, Option.some.injEq]

theorem draws_of_refused {compiler : CompilerRef} {fault : Fault}
    (tried : workshop.attempt? command = some ⟨compiler, .error fault⟩) :
    draws ref ⟨workshop, command⟩ = 0 := by
  rw [draws_of_not_issue (not_issue_of_tried tried)]
  simp only [compilesFrom, tried, Bool.false_eq_true, ↓reduceIte]

theorem draws_of_untried (untried : workshop.attempt? command = none)
    (issues : ∀ source base, command ≠ .issue source base) :
    draws ref ⟨workshop, command⟩ = 0 := by
  rw [draws_of_not_issue issues]
  simp only [compilesFrom, untried, Bool.false_eq_true, ↓reduceIte]

end Step

end Drawing

namespace Effect

variable {workshop after : Workshop} {command : Command} {answer : Except Fault Answer}

/-- A step moves the counter of a source by as many numbers of it as it uses, and adds a source only
if told to. -/
theorem start?_after (effect : Effect workshop command answer after) (commands : List Command)
    (ref : SourceRef) :
    after.start? commands ref = (workshop.start? (command :: commands) ref).map
      (· + (Step.draws ref ⟨workshop, command⟩ : Int)) := by
  have still {start : Option Int} (none : Step.draws ref ⟨workshop, command⟩ = 0) :
      start.map (· + (Step.draws ref ⟨workshop, command⟩ : Int)) = start := by
    rw [none]
    simp
  have moved (source : SourceRef) (adds : command.start? = none)
      (drawn : Step.draws ref ⟨workshop, command⟩ =
        if workshop.known source = ref then 1 else 0) :
      (workshop.advance source).start? commands ref =
        (workshop.start? (command :: commands) ref).map
          (· + (Step.draws ref ⟨workshop, command⟩ : Int)) := by
    rw [Workshop.start?_advance, Workshop.start?_cons_of_none adds, drawn]
    split <;> simp
  cases effect with
  | sourceAdded start =>
    rw [still rfl]
    cases ref with
    | none => rfl
    | some number => simp [Workshop.start?, Command.start?]
  | compilerAdded conventions source =>
    rw [still rfl, Workshop.start?_cons_of_none rfl]
    rfl
  | issued source base => exact moved source rfl (Step.draws_of_issue source base)
  | refused tried =>
    rw [still (Step.draws_of_refused tried),
      Workshop.start?_cons_of_none (Command.start?_of_tried tried)]
  | failed tried ran =>
    exact moved _ (Command.start?_of_tried tried) (Step.draws_of_checked tried)
  | made tried ran =>
    exact moved _ (Command.start?_of_tried tried) (Step.draws_of_checked tried)
  | detached there =>
    rw [still rfl, Workshop.start?_cons_of_none rfl]
    rfl
  | unchanged untried issues adds =>
    rw [still (Step.draws_of_untried untried issues), Workshop.start?_cons_of_none adds]

/-- The counter of a source that is there moves by as many numbers as the step uses. -/
theorem counter?_after (effect : Effect workshop command answer after) {ref : SourceRef}
    {number : Int} (there : workshop.counter? ref = some number) :
    after.counter? ref = some (number + Step.draws ref ⟨workshop, command⟩) := by
  have moved := effect.start?_after [] ref
  rw [Workshop.start?_of_counter? there, Option.map_some, Workshop.start?_eq] at moved
  cases ref with
  | none => simpa using moved
  | some position => simpa using moved

/-- A name that a step hands out has the number that the source has come to, which it then leaves. -/
theorem issued_of_nameFrom? (effect : Effect workshop command answer after) {ref : SourceRef}
    {name : String} (handed : Step.nameFrom? ref ⟨workshop, command⟩ = some name)
    (answered : Step.answer ⟨workshop, command⟩ = answer) :
    ∃ base number, workshop.counter? ref = some number ∧ name = issuedName base number ∧
      after.counter? ref = some (number + 1) := by
  have asked : Step.source? ⟨workshop, command⟩ = some ref := by
    by_contra other
    rw [Step.nameFrom?, if_neg other] at handed
    cases handed
  rw [Step.nameFrom?, if_pos asked, answered] at handed
  have advanced (source : SourceRef) (same : workshop.known source = ref) :
      workshop.counter? ref = some (workshop.source source).next ∧
        (workshop.advance source).counter? ref = some ((workshop.source source).next + 1) := by
    subst same
    rw [Workshop.counter?_advance, if_pos rfl, Workshop.counter?_known]
    exact ⟨rfl, rfl⟩
  cases effect with
  | issued source base =>
    obtain ⟨before, after⟩ := advanced source (Option.some.inj asked)
    exact ⟨base, _, before, (Option.some.inj handed).symm, after⟩
  | made tried ran =>
    rw [Step.source?_of_tried tried] at asked
    obtain ⟨before, after⟩ := advanced _ (Option.some.inj asked)
    obtain ⟨entries, _, rfl⟩ := Conventions.compileSnapshot_eq_ok.mp ran
    exact ⟨_, _, before, (Option.some.inj handed).symm, after⟩
  | sourceAdded | compilerAdded | detached => cases asked
  | refused | failed => cases handed
  | unchanged untried issues adds =>
    rw [Step.source?_of_untried untried issues] at asked
    cases asked

/-- A step that fails keeps all styles, compilers and counters, but that the counter of the source that
it asks for a name may have moved by one. -/
theorem kept_of_fault {fault : Fault} (effect : Effect workshop command (.error fault) after) :
    after.styles = workshop.styles ∧ after.compilers = workshop.compilers ∧
      ∀ ref, after.counter? ref = workshop.counter? ref ∨
        Step.source? ⟨workshop, command⟩ = some ref ∧
          after.counter? ref = (workshop.counter? ref).map (· + 1) := by
  cases effect with
  | refused tried => exact ⟨rfl, rfl, fun _ => .inl rfl⟩
  | unchanged untried issues adds => exact ⟨rfl, rfl, fun _ => .inl rfl⟩
  | failed tried ran =>
    refine ⟨Workshop.styles_advance _ _, Workshop.compilers_advance _ _, fun ref => ?_⟩
    rw [Workshop.counter?_advance, Step.source?_of_tried tried]
    split
    · next same => exact .inr ⟨congrArg some same, rfl⟩
    · exact .inl rfl

/-- The styles after a step are those before it, and perhaps one that is made in it, or one that was
there and is detached. -/
theorem held_after (effect : Effect workshop command answer after)
    (answered : Step.answer ⟨workshop, command⟩ = answer)
    (reached : Step.after ⟨workshop, command⟩ = after) {held : WorkshopStyle}
    (member : held ∈ after.styles) :
    held ∈ workshop.styles ∨ Step.Mints ⟨workshop, command⟩ held.compiler held.style ∨
      ∃ number, command = .detach number ∧ answer = .ok (.style held.style) ∧
        held.compiler = none ∧ ∃ earlier ∈ workshop.styles, earlier.style = held.style := by
  cases effect with
  | made tried ran =>
    rcases List.mem_append.mp member with earlier | new
    · exact .inl earlier
    · cases List.mem_singleton.mp new
      refine .inr (.inl ⟨⟨_, tried⟩, answered, ?_⟩)
      obtain ⟨entries, _, rfl⟩ := Conventions.compileSnapshot_eq_ok.mp ran
      rw [reached]
      exact Prod.ext rfl (Workshop.source_advance _ _).symm
  | detached there =>
    rcases List.mem_append.mp member with earlier | new
    · exact .inl earlier
    · cases List.mem_singleton.mp new
      exact .inr (.inr ⟨_, rfl, rfl, rfl, _, List.mem_of_getElem? there, rfl⟩)
  | issued | failed =>
    rw [Workshop.styles_advance] at member
    exact .inl member
  | sourceAdded | compilerAdded | refused | unchanged => exact .inl member

end Effect

end ScopedStyle
