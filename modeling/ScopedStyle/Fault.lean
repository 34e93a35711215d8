import ScopedStyle.Key
import ScopedStyle.ValueLiteral

/-! What can go wrong when a spec is merged, checked and compiled, told apart by cause. Each fault
carries what it is about, and its wording is decided here alone. -/
namespace ScopedStyle

/-- Why a value cannot be rendered as a declaration. -/
inductive ValueFault where
  /-- Truth values have no rendering. -/
  | boolean
  /-- A kind was given in the place of an object of it. -/
  | bareType (name : String)
  /-- The conversion of the value is not something that can be called. -/
  | notCallable
  /-- The value is neither scalar, convertible, array nor mapping. -/
  | unsupported
  /-- The number is infinite or not a number. -/
  | notFinite
  /-- The conversion answered with something that is no scalar. -/
  | badConversion (resultKind : String)
  /-- An array holds something that is no scalar, in the given shape. -/
  | nestedInside (shape : String)
  /-- The value is a scope of its own. -/
  | variant

/-- Why a spec or its name is not accepted. -/
inductive SpecFault where
  /-- The spec, or one of its scopes, is of another kind than a mapping. -/
  | notMapping (kind : String)
  /-- The base of a merge is of another kind than a mapping. -/
  | baseNotMapping (kind : String)
  /-- The patch of a merge is of another kind than a mapping. -/
  | patchNotMapping (kind : String)
  /-- A key is something else than a text. -/
  | badKey (key : Value)
  /-- The base name is not a text, or it is empty. -/
  | badBaseName (name : Value)
  /-- A plain spec is overridden and no base name is given. -/
  | noBaseName
  /-- The name of a variant holds the separator of variants. -/
  | separatorInName (name separator : String)

/-- Why a patch cannot be merged onto a base. -/
inductive MergeFault where
  /-- A scope meets a value: the patch has the scope if so told, and the base otherwise. -/
  | shapeConflict (patchIsScope : Bool)
  /-- What is to be overridden is neither a compiled style nor a spec. -/
  | notOverridable (kind : String)

/-- A failure of the compiler. -/
inductive Fault where
  /-- A leaf value is refused: the property it was given for, and the value. -/
  | value (reason : ValueFault) (property : String) (value : Value)
  /-- A spec is refused at the scope with the given path. -/
  | spec (reason : SpecFault) (path : List Key)
  /-- A merge is refused at the given path. -/
  | merge (reason : MergeFault) (path : List Key)
  /-- A merge is to be refused at a path with a segment that is no text, counted from zero. -/
  | unwritablePath (index : Nat) (kind : String)
  /-- A value that cannot be a key is looked up. -/
  | unhashable (kind : String)
  /-- A name is not in the table of pseudo-classes. -/
  | unknownPseudoClass (name : Value)
  /-- Nothing of what is referred to has the given number. -/
  | unknownNumber (number : Nat)
  /-- The conversion of an author's object failed with an error of its own. -/
  | raised (kind message : String)

/-- Whether a fault is one of the compiler's own, which refuse a value, a spec or a merge. -/
def Fault.isOwn : Fault → Bool
  | .value _ _ _ | .spec _ _ | .merge _ _ => true
  | _ => false

/-- What a side of a merge has at a path. -/
def sideName (isScope : Bool) : String :=
  if isScope then "variant" else "value"

/-- A path as it is written in messages. -/
def dotted (path : List Key) : String :=
  String.intercalate "." (path.map (·.text))

/-- The wording of a refused value. -/
def ValueFault.message (property : String) (value : Value) : ValueFault → String
  | .boolean => "Boolean value for " ++ quoted property ++ " cannot be rendered as CSS"
  | .bareType name =>
    "Class " ++ name ++ " given for " ++ quoted property ++ ", expected an instance"
  | .notCallable => value.kindName ++ ".to_css for " ++ quoted property ++ " is not callable"
  | .unsupported => "Unsupported value for " ++ quoted property ++ ": " ++ value.kindName
  | .notFinite => "Non-finite number " ++ value.literal ++ " cannot be rendered as CSS"
  | .badConversion resultKind =>
    value.kindName ++ ".to_css() for " ++ quoted property ++ " returned " ++ resultKind
      ++ ", expected a string or number"
  | .nestedInside shape => "Nested " ++ shape ++ " value is not allowed inside " ++ quoted property
  | .variant => "Nested spec under " ++ quoted property ++ " is a variant, not a value"

/-- The wording of a refused spec. -/
def SpecFault.message (path : List Key) : SpecFault → String
  | .notMapping kind =>
    let place := if dotted path == "" then "<root>" else dotted path
    "Style spec at " ++ place ++ " must be a mapping, got " ++ kind
  | .baseNotMapping kind => "Base spec must be a mapping, got " ++ kind
  | .patchNotMapping kind => "Patch must be a mapping, got " ++ kind
  | .badKey key => "Style spec keys must be strings, got " ++ key.literal
  | .badBaseName name => "Base name must be a non-empty string, got " ++ name.literal
  | .noBaseName => "A base name is required when overriding a plain spec"
  | .separatorInName name separator =>
    "Variant name " ++ quoted name ++ " must not contain the separator " ++ quoted separator

/-- The wording of a refused merge. -/
def MergeFault.message (path : List Key) : MergeFault → String
  | .shapeConflict patchIsScope =>
    "Cannot merge " ++ sideName patchIsScope ++ " onto " ++ sideName (!patchIsScope)
      ++ " at " ++ quoted (dotted path)
  | .notOverridable kind => "Cannot override " ++ kind ++ ", expected a compiled style or a spec"

/-- The wording of a fault. -/
def Fault.message : Fault → String
  | .value reason property offender => reason.message property offender
  | .spec reason path => reason.message path
  | .merge reason path => reason.message path
  | .unwritablePath index kind =>
    "sequence item " ++ index.repr ++ ": expected str instance, " ++ kind ++ " found"
  | .unhashable kind => "unhashable type: " ++ quoted kind
  | .unknownPseudoClass name => name.literal
  | .unknownNumber _ => "list index out of range"
  | .raised _ message => message

/-- What can fail succeeds in two parts if the first does, and the second does with what it gave. -/
theorem bind_eq_ok {α β : Type} {first : Except Fault α} {second : α → Except Fault β}
    {result : β} :
    first >>= second = .ok result ↔ ∃ middle, first = .ok middle ∧ second middle = .ok result := by
  cases first with
  | error fault => simp [bind, Except.bind]
  | ok middle => simp [bind, Except.bind]

/-- What can fail in two parts fails as the first does, or as the second does with what it gave. -/
theorem bind_eq_error {α β : Type} {first : Except Fault α} {second : α → Except Fault β}
    {fault : Fault} :
    first >>= second = .error fault ↔
      first = .error fault ∨ ∃ middle, first = .ok middle ∧ second middle = .error fault := by
  cases first with
  | error refused => simp [bind, Except.bind]
  | ok middle => simp [bind, Except.bind]

/-- What can fail for one item succeeds for all in turn exactly if it does for each of them. -/
theorem mapM_eq_ok {α β : Type} {run : α → Except Fault β} {items : List α} {results : List β} :
    items.mapM run = .ok results ↔ items.map run = results.map .ok := by
  induction items generalizing results with
  | nil => cases results <;> simp [pure, Except.pure]
  | cons item rest ih =>
    simp only [List.mapM_cons, bind_eq_ok, ih]
    constructor
    · rintro ⟨first, here, others, further, same⟩
      cases same
      rw [List.map_cons, here, further, List.map_cons]
    · intro each
      obtain ⟨first, others, rfl, here, further⟩ := List.map_eq_cons_iff.mp each.symm
      exact ⟨first, here.symm, others, further.symm, rfl⟩

/-- What can fail for one item fails for all in turn as it does for the first that it fails for. -/
theorem mapM_eq_error {α β : Type} {run : α → Except Fault β} {items : List α} {fault : Fault} :
    items.mapM run = .error fault ↔
      ∃ before item after, items = before ++ item :: after ∧
        (∀ earlier ∈ before, ∃ result, run earlier = .ok result) ∧ run item = .error fault := by
  induction items with
  | nil => simp [pure, Except.pure]
  | cons first rest ih =>
    simp only [List.mapM_cons, bind_eq_error, ih]
    constructor
    · rintro (here | ⟨result, ran, (⟨before, item, after, rfl, earlier, refused⟩ | ⟨_, _, same⟩)⟩)
      · exact ⟨[], first, rest, rfl, fun _ member => absurd member List.not_mem_nil, here⟩
      · exact ⟨first :: before, item, after, rfl,
          List.forall_mem_cons.mpr ⟨⟨result, ran⟩, earlier⟩, refused⟩
      · cases same
    · rintro ⟨before, item, after, split, earlier, refused⟩
      cases before with
      | nil =>
        cases split
        exact .inl refused
      | cons head others =>
        cases split
        obtain ⟨⟨result, ran⟩, earlier⟩ := List.forall_mem_cons.mp earlier
        exact .inr ⟨result, ran, .inl ⟨others, item, after, rfl, earlier, refused⟩⟩

theorem mapM_isOk {α β : Type} {run : α → Except Fault β} {items : List α} :
    (∃ results, items.mapM run = .ok results) ↔ ∀ item ∈ items, ∃ result, run item = .ok result := by
  constructor
  · rintro ⟨results, ran⟩ item member
    have among := mapM_eq_ok.mp ran ▸ List.mem_map_of_mem member
    obtain ⟨result, _, here⟩ := List.mem_map.mp among
    exact ⟨result, here.symm⟩
  · intro each
    cases ran : items.mapM run with
    | ok results => exact ⟨results, rfl⟩
    | error fault =>
      obtain ⟨before, item, after, rfl, _, refused⟩ := mapM_eq_error.mp ran
      obtain ⟨result, here⟩ := each item List.mem_append_cons_self
      cases refused.symm.trans here

theorem exists_of_isOk {α : Type} {result : Except Fault α} (succeeded : result.isOk = true) :
    ∃ value, result = .ok value := by
  cases result with
  | error fault => cases succeeded
  | ok value => exact ⟨value, rfl⟩

end ScopedStyle
