import Mathlib.Data.List.Induction
import ScopedStyle.Proofs.IssuedNames
import ScopedStyle.Proofs.WorkshopSteps

/-! Runs of a workshop: commands carried out one after the other, each as a step from the workshop
before it to the one after it. Since a step leaves a number of a source behind if it uses it, a source
gives each of its numbers once, whoever asks for names and whether or not something comes of them. -/
namespace ScopedStyle

namespace Workshop

/-- The workshop that some commands lead to. -/
def afterAll (workshop : Workshop) (commands : List Command) : Workshop :=
  commands.foldl (fun workshop command => (workshop.run command).2) workshop

/-- The steps in which some commands are carried out. -/
def steps (workshop : Workshop) : List Command → List Step
  | [] => []
  | command :: others => ⟨workshop, command⟩ :: (workshop.run command).2.steps others

variable {workshop : Workshop}

theorem afterAll_concat (workshop : Workshop) (commands : List Command) (command : Command) :
    workshop.afterAll (commands ++ [command]) =
      Step.after ⟨workshop.afterAll commands, command⟩ := by
  simp [afterAll, Step.after]

theorem steps_concat (workshop : Workshop) (commands : List Command) (command : Command) :
    workshop.steps (commands ++ [command]) =
      workshop.steps commands ++ [⟨workshop.afterAll commands, command⟩] := by
  induction commands generalizing workshop with
  | nil => rfl
  | cons first others ih =>
    simp only [List.cons_append, steps, ih]
    rfl

/-- The counter of a source is where it began, moved by one for each name that was issued from it and
for each compilation that came past the checks. -/
theorem counter?_afterAll (workshop : Workshop) (commands : List Command) (ref : SourceRef) :
    (workshop.afterAll commands).counter? ref =
      (workshop.start? commands ref).map fun start =>
        start + ((workshop.steps commands).countP (·.issuesFrom ref) : Int) +
          ((workshop.steps commands).countP (·.compilesFrom ref) : Int) := by
  induction commands generalizing workshop with
  | nil =>
    rw [start?_eq]
    cases ref <;> simp [steps, afterAll]
  | cons command others ih =>
    have moved := (workshop.run_effect command).start?_after others ref
    rw [afterAll, List.foldl_cons, ← afterAll, ih, moved, Option.map_map]
    congr 1
    funext start
    simp only [Function.comp_apply, steps, List.countP_cons, Step.draws]
    push_cast
    omega

/-- The names from a source in a run have numbers from where the source stands on, and no name is
handed out twice. -/
theorem names_of_steps (workshop : Workshop) (commands : List Command) (ref : SourceRef) :
    ((workshop.steps commands).filterMap (·.nameFrom? ref)).Nodup ∧
      ∀ number, workshop.counter? ref = some number →
        ∀ name ∈ (workshop.steps commands).filterMap (·.nameFrom? ref),
          ∃ base later, number ≤ later ∧ name = issuedName base later := by
  induction commands generalizing workshop with
  | nil => exact ⟨List.nodup_nil, fun _ _ name member => absurd member List.not_mem_nil⟩
  | cons command others ih =>
    obtain ⟨apart, onwards⟩ := ih (workshop.run command).2
    have effect := workshop.run_effect command
    have bounded (number : Int) (there : workshop.counter? ref = some number) (name : String)
        (member : name ∈
          ((workshop.run command).2.steps others).filterMap (·.nameFrom? ref)) :
        ∃ base later, number ≤ later ∧ name = issuedName base later := by
      obtain ⟨base, later, bound, same⟩ := onwards _ (effect.counter?_after there) name member
      exact ⟨base, later, by omega, same⟩
    rw [steps]
    cases handed : Step.nameFrom? ref ⟨workshop, command⟩ with
    | none =>
      rw [List.filterMap_cons_none handed]
      exact ⟨apart, bounded⟩
    | some first =>
      obtain ⟨base, number, there, same, left⟩ := effect.issued_of_nameFrom? handed rfl
      rw [List.filterMap_cons_some handed]
      refine ⟨List.nodup_cons.mpr ⟨?_, apart⟩, ?_⟩
      · -- The names that follow have higher numbers, and a name tells its number.
        intro again
        obtain ⟨other, later, bound, equal⟩ := onwards _ left first again
        have numbers := number_of_issuedName (same.symm.trans equal)
        omega
      · intro start begun name member
        rcases List.mem_cons.mp member with rfl | member
        · cases begun.symm.trans there
          exact ⟨base, number, Int.le_refl number, same⟩
        · exact bounded start begun name member

/-- Every style that is held was made in the run, by the compiler that it is held with unless it has
been detached from that. -/
theorem minted_of_held (empty : workshop.styles = []) (commands : List Command) :
    ∀ held ∈ (workshop.afterAll commands).styles,
      ∃ step ∈ workshop.steps commands, ∃ compiler, step.Mints compiler held.style ∧
        (held.compiler = compiler ∨ held.compiler = none ∧
          ∃ later ∈ workshop.steps commands, ∃ number, later.command = .detach number ∧
            later.answer = .ok (.style held.style)) := by
  induction commands using List.reverseRecOn with
  | nil =>
    intro held member
    rw [afterAll, List.foldl_nil, empty] at member
    cases member
  | append_singleton commands command ih =>
    intro held member
    rw [afterAll_concat] at member
    rw [steps_concat]
    have last : (⟨workshop.afterAll commands, command⟩ : Step) ∈
        workshop.steps commands ++ [⟨workshop.afterAll commands, command⟩] := by simp
    have effect := (workshop.afterAll commands).run_effect command
    rcases effect.held_after rfl rfl member with earlier | minted | ⟨number, rfl, detached, alone, there⟩
    · obtain ⟨step, within, compiler, minted, kept⟩ := ih held earlier
      refine ⟨step, List.mem_append_left _ within, compiler, minted, kept.imp_right ?_⟩
      rintro ⟨alone, later, among, detached⟩
      exact ⟨alone, later, List.mem_append_left _ among, detached⟩
    · exact ⟨_, last, held.compiler, minted, .inl rfl⟩
    · obtain ⟨earlier, before, same⟩ := there
      obtain ⟨step, within, compiler, minted, _⟩ := ih earlier before
      rw [same] at minted
      exact ⟨step, List.mem_append_left _ within, compiler, minted,
        .inr ⟨alone, _, last, number, rfl, detached⟩⟩

/-- **A source hands out each name once.** After any commands, whatever they are and whether or not
they succeed: the names that a source has handed out, by issuing or as the root classes of styles, are
all different; its counter is where it began, moved by one for each name issued and for each
compilation with a base name and a spec that passed their checks; every style that is held was made in
a step in which its compiler had the name issued by its own source, which for a detached style that is
overridden is the shared one; and a step that failed has kept everything but the counter of the source
that it asked, which it may have moved by one. -/
theorem run_hands_out_each_name_once (commands : List Command) :
    (∀ ref,
      ((steps {} commands).filterMap (·.nameFrom? ref)).Nodup ∧
      (afterAll {} commands).counter? ref = (start? {} commands ref).map fun start =>
        start + ((steps {} commands).countP (·.issuesFrom ref) : Int) +
          ((steps {} commands).countP (·.compilesFrom ref) : Int)) ∧
    (∀ held ∈ (afterAll {} commands).styles,
      ∃ step ∈ steps {} commands, ∃ compiler, step.Mints compiler held.style ∧
        (held.compiler = compiler ∨ held.compiler = none ∧
          ∃ later ∈ steps {} commands, ∃ number, later.command = .detach number ∧
            later.answer = .ok (.style held.style))) ∧
    ∀ step ∈ steps {} commands, ∀ fault, step.answer = .error fault →
      step.after.styles = step.before.styles ∧ step.after.compilers = step.before.compilers ∧
        ∀ ref, step.after.counter? ref = step.before.counter? ref ∨
          step.source? = some ref ∧
            step.after.counter? ref = (step.before.counter? ref).map (· + 1) := by
  refine ⟨fun ref => ⟨(names_of_steps {} commands ref).1, counter?_afterAll {} commands ref⟩,
    minted_of_held rfl commands, ?_⟩
  intro step _ fault failed
  have effect := step.before.run_effect step.command
  rw [show (step.before.run step.command).1 = .error fault from failed] at effect
  exact effect.kept_of_fault

/-- A source that begins below zero and is shared by two compilers. Of the compilations one fails at a
value, which uses a number, and one at its spec; a style is detached, and then both are overridden. -/
private def sharedRun : List Command := [
  .addSource (-1), .addCompiler {} (some 0), .addCompiler {} (some 0), .issue (some 0) "a",
  .compile (some 0) (.map []) (.text "a-"),
  .compile (some 1) (.map [(.text "color", .null)]) (.text "a"),
  .compile (some 1) .null (.text "a"), .detach 0,
  .restyle 1 (.map []) .null, .restyle 0 (.map []) .null]

theorem run_hands_out_each_name_once_of_shared :
    (steps {} sharedRun).filterMap (·.nameFrom? (some 0)) = ["A_a-1", "A-_a-0", "A-_a-2"] ∧
      ((steps {} sharedRun).filterMap (·.nameFrom? (some 0))).Nodup ∧
      (afterAll {} sharedRun).counter? (some 0) = some (-1 + 1 + 3) ∧
      (steps {} sharedRun).filterMap (·.nameFrom? none) = ["A-_a-1"] ∧
      (∃ held ∈ (afterAll {} sharedRun).styles, ∃ step ∈ steps {} sharedRun, ∃ compiler,
        step.Mints compiler held.style) ∧
      ∃ step ∈ steps {} sharedRun, ∃ fault, step.answer = .error fault ∧
        step.after.styles = step.before.styles := by
  obtain ⟨counted, minted, kept⟩ := run_hands_out_each_name_once sharedRun
  obtain ⟨apart, counter⟩ := counted (some 0)
  have start : start? {} sharedRun (some 0) = some (-1) := by decide
  have issues : (steps {} sharedRun).countP (·.issuesFrom (some 0)) = 1 := by decide +kernel
  have compiles : (steps {} sharedRun).countP (·.compilesFrom (some 0)) = 3 := by decide +kernel
  rw [start, issues, compiles] at counter
  have styles : 0 < (afterAll {} sharedRun).styles.length := by decide +kernel
  obtain ⟨held, member⟩ := List.exists_mem_of_length_pos styles
  obtain ⟨making, within, compiler, mints, _⟩ := minted held member
  have fails : (steps {} sharedRun).any (fun step => !step.answer.isOk) = true := by
    decide +kernel
  obtain ⟨failing, among, failed⟩ := List.any_eq_true.mp fails
  obtain ⟨fault, answered⟩ : ∃ fault, failing.answer = .error fault := by
    cases held : failing.answer with
    | error fault => exact ⟨fault, rfl⟩
    | ok answer => simp [held, Except.isOk, Except.toBool] at failed
  exact ⟨by decide +kernel, apart, counter, by decide +kernel,
    ⟨held, member, making, within, compiler, mints⟩,
    failing, among, fault, answered, (kept failing among fault answered).1⟩

end Workshop

end ScopedStyle
