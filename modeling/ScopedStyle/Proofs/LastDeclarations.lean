import ScopedStyle.Proofs.ScopePlaces

/-! Which leaf of a scope leaves a property with its value. Several keys can be spellings of one
property, and of these the last in its scope decides. In a merge this is the last that only the patch
has, and if there is none the last of the base, with the value that the patch has for it. -/
namespace ScopedStyle

/-- The value that some declarations leave a property with. -/
def lastDeclared (property : String) (declared : List Declaration) : Option String :=
  (declared.filter (·.property == property)).getLast?.map (·.value)

/-- The value that a leaf of a spec, as it is kept, leaves its property with. -/
def lastValue (unit : String) (leaf : Key × Value) : Option String :=
  match leaf.2.settled.declarations unit leaf.1.text with
  | .ok declared => declared.getLast?.map (·.value)
  | .error _ => none

theorem lastDeclared_append (property : String) (first second : List Declaration) :
    lastDeclared property (first ++ second) =
      (lastDeclared property second).or (lastDeclared property first) := by
  rw [lastDeclared, List.filter_append, List.getLast?_append, Option.map_or]
  rfl

namespace Spec

/-- The leaves directly in a spec whose keys are spellings of a property. -/
def spellings (property : String) (spec : Spec Key) : List (Key × Value) :=
  spec.leaves.filter fun leaf => hyphenated leaf.1.text == property

def lastSpelling? (property : String) (spec : Spec Key) : Option (Key × Value) :=
  (spec.spellings property).getLast?

/-- The spelling of a property that decides in a merge: the last that only the patch has, or else the
last of the base. -/
def decidingSpelling? (property : String) (base patch : Spec Key) : Option (Key × Value) :=
  ((patch.spellings property).filter fun leaf => (base.find? leaf.1).isNone).getLast?.or
    ((base.lastSpelling? property).map patch.replaced)

/-- Whether a key of a patch that is the last there for a property is the last in the merge, too: the
base does not have it, or it is the last of the base and the patch has none that the base does not. -/
def KeepsLast (property : String) (base patch : Spec Key) (key : Key) : Prop :=
  base.find? key = none ∨
    (base.lastSpelling? property).map (·.1.text) = some key.text ∧
      ∀ leaf ∈ patch.spellings property, (base.find? leaf.1).isSome

end Spec

/-! ## Leaves -/

namespace Value

variable {unit name : String} {value : Value}

theorem property_of_declared {declaration : Declaration}
    (ran : value.declared unit name = .ok declaration) : declaration.property = hyphenated name := by
  obtain ⟨_, _, ran⟩ := bind_eq_ok.mp ran
  obtain ⟨_, _, same⟩ := bind_eq_ok.mp ran
  cases same
  rfl

private theorem property_of_items {items : List Value} {declared : List Declaration}
    (ran : items.mapM (Value.declared unit name) = .ok declared) :
    declared.length = items.length ∧
      ∀ declaration ∈ declared, declaration.property = hyphenated name := by
  have each := mapM_eq_ok.mp ran
  refine ⟨by simpa using (congrArg List.length each).symm, fun declaration member => ?_⟩
  have among : Except.ok declaration ∈ items.map (Value.declared unit name) :=
    each ▸ List.mem_map_of_mem member
  obtain ⟨_, _, here⟩ := List.mem_map.mp among
  exact property_of_declared here

/-- A leaf has at least one declaration, and all that it has are for the property that its key spells. -/
theorem property_of_declarations {declared : List Declaration}
    (ran : value.declarations unit name = .ok declared) :
    declared ≠ [] ∧ ∀ declaration ∈ declared, declaration.property = hyphenated name := by
  obtain ⟨shape, _, ran⟩ := bind_eq_ok.mp ran
  cases shape with
  | nested => cases ran
  | array =>
    dsimp only at ran
    split at ran
    · cases ran
      simp
    · next some =>
      obtain ⟨long, alike⟩ := property_of_items ran
      refine ⟨?_, alike⟩
      rintro rfl
      exact some (List.length_eq_zero_iff.mp long.symm)
  | scalar | convertible =>
    obtain ⟨declaration, single, same⟩ := bind_eq_ok.mp ran
    cases same
    exact ⟨List.cons_ne_nil _ _, List.forall_mem_singleton.mpr (property_of_declared single)⟩

/-- What a leaf declares leaves the property that its key spells with its last value, and no other
property with any. -/
theorem lastDeclared_of_declarations {key : Key} {declared : List Declaration}
    (ran : value.settled.declarations unit key.text = .ok declared) (property : String) :
    lastDeclared property declared =
      if hyphenated key.text == property then lastValue unit (key, value) else none := by
  obtain ⟨_, alike⟩ := property_of_declarations ran
  simp only [lastValue, ran]
  split
  · next spells =>
    rw [lastDeclared, List.filter_eq_self.mpr]
    intro declaration member
    rw [alike declaration member]
    exact spells
  · next other =>
    rw [lastDeclared, List.filter_eq_nil_iff.mpr]
    · rfl
    · intro declaration member
      rw [alike declaration member]
      exact other

theorem isSome_lastValue {key : Key} {declared : List Declaration}
    (ran : value.settled.declarations unit key.text = .ok declared) :
    (lastValue unit (key, value)).isSome := by
  obtain ⟨some, _⟩ := property_of_declarations ran
  simpa [lastValue, ran, List.getLast?_eq_none_iff] using some

end Value

/-! ## Scopes -/

namespace Spec

variable {unit property : String} {spec base patch : Spec Key} {key : Key} {value : Value}

theorem spellings_leaf (property : String) (key : Key) (value : Value) (rest : Spec Key) :
    (leaf key value rest).spellings property =
      if hyphenated key.text == property then (key, value) :: rest.spellings property
      else rest.spellings property := by
  rw [spellings, leaves, List.filter_cons]
  rfl

theorem lastSpelling?_leaf (property : String) (key : Key) (value : Value) (rest : Spec Key) :
    (leaf key value rest).lastSpelling? property =
      (rest.lastSpelling? property).or
        (if hyphenated key.text == property then some (key, value) else none) := by
  rw [lastSpelling?, spellings_leaf, lastSpelling?]
  split
  · rw [List.getLast?_cons]
    cases (rest.spellings property).getLast? <;> rfl
  · rw [Option.or_none]

/-- What a scope declares leaves a property with the last value of its last spelling. -/
theorem lastDeclared_of_declarations {declared : List Declaration}
    (ran : spec.settled.declarations unit = .ok declared) (property : String) :
    lastDeclared property declared = (spec.lastSpelling? property).bind (lastValue unit) ∧
      ((spec.lastSpelling? property).isSome → (lastDeclared property declared).isSome) := by
  induction spec generalizing declared with
  | nil =>
    cases ran
    exact ⟨rfl, fun spelled => spelled⟩
  | leaf key value rest ih =>
    obtain ⟨own, others, here, further, rfl⟩ := declarations_leaf_eq_ok.mp ran
    obtain ⟨after, spelled⟩ := ih further
    have first := Value.lastDeclared_of_declarations here property
    have given := Value.isSome_lastValue here
    rw [lastDeclared_append, lastSpelling?_leaf, first, after]
    cases found : rest.lastSpelling? property with
    | none => by_cases spells : hyphenated key.text == property <;> simp [spells, given]
    | some last =>
      simp only [after, found, Option.bind_some, Option.isSome_some, forall_const] at spelled
      obtain ⟨text, is⟩ := Option.isSome_iff_exists.mp spelled
      simp [is]
  | scope key traits inner rest _ ih => exact ih ran

theorem find?_of_mem_leaves (distinct : spec.hasDistinctKeys = true)
    (member : (key, value) ∈ spec.leaves) : spec.find? key = some (.leaf value) := by
  induction spec with
  | nil => cases member
  | leaf first held rest ih =>
    obtain ⟨once, others⟩ := hasDistinctKeys_leaf.mp distinct
    rcases List.mem_cons.mp member with same | after
    · cases same
      simp [find?]
    · have found := ih others after
      simp [find?, not_met_of_find?_rest once found, found]
  | scope first traits inner rest _ ih =>
    obtain ⟨once, _, others⟩ := hasDistinctKeys_scope.mp distinct
    have found := ih others member
    simp [find?, not_met_of_find?_rest once found, found]

theorem mem_leaves_of_find? (found : spec.find? key = some (.leaf value)) :
    ∃ same, (same, value) ∈ spec.leaves ∧ same.text = key.text := by
  induction spec with
  | nil => simp [find?] at found
  | leaf first held rest ih =>
    by_cases met : (first == key) = true
    · simp only [find?, met, ↓reduceIte, Option.some.injEq, Entry.leaf.injEq] at found
      exact ⟨first, by simp [leaves, found], Key.beq_iff.mp met⟩
    · simp only [find?, met, ↓reduceIte, Bool.false_eq_true] at found
      obtain ⟨same, member, text⟩ := ih found
      exact ⟨same, List.mem_cons_of_mem _ member, text⟩
  | scope first traits inner rest _ ih =>
    by_cases met : (first == key) = true
    · simp [find?, met] at found
    · simp only [find?, met, ↓reduceIte, Bool.false_eq_true] at found
      exact ih found

/-! ## Merges -/

/-- The last spelling of a merge is the one that decides. -/
theorem lastSpelling?_patched (property : String) (base patch : Spec Key) :
    (base.patched patch).lastSpelling? property = decidingSpelling? property base patch := by
  have spelled : (base.patched patch).spellings property =
      (base.spellings property).map patch.replaced ++
        (patch.spellings property).filter fun leaf => (base.find? leaf.1).isNone := by
    simp only [spellings, leaves_patched, List.filter_append, List.filter_map, Function.comp_def,
      key_replaced, List.filter_filter, Bool.and_comm]
  rw [lastSpelling?, spelled, List.getLast?_append, List.getLast?_map]
  rfl

/-- The spellings that only a patch has end in its last one if the base does not have that. -/
private theorem lastAdded_of_absent (absent : base.find? key = none)
    (last : patch.lastSpelling? property = some (key, value)) :
    ((patch.spellings property).filter fun leaf => (base.find? leaf.1).isNone).getLast? =
      some (key, value) := by
  obtain ⟨before, split⟩ := List.getLast?_eq_some_iff.mp last
  rw [split, List.filter_append]
  simp [absent]

/-- Without a conflict, a base that has a spelling of the patch has a last one. -/
private theorem lastSpelling?_of_present (free : base.firstConflict? patch = none)
    (inPatch : patch.find? key = some (.leaf value)) (spells : hyphenated key.text = property)
    (present : (base.find? key).isSome) : (base.lastSpelling? property).isSome := by
  obtain absent | absent | ⟨old, _, held, _⟩ | ⟨_, _, _, nested, _⟩ :=
    entries_without_conflict free key
  · simp [absent] at present
  · cases inPatch.symm.trans absent
  · obtain ⟨same, member, text⟩ := mem_leaves_of_find? held
    have spelled : (same, old) ∈ base.spellings property :=
      List.mem_filter.mpr ⟨member, by simp [text, spells]⟩
    rw [lastSpelling?, Option.isSome_iff_ne_none, Ne, List.getLast?_eq_none_iff]
    exact List.ne_nil_of_mem spelled
  · cases inPatch.symm.trans nested

/-- The last spelling that a patch has of a property has the same key in a merge exactly if it keeps its
place, and then it decides with its value. In any case there is a spelling that decides. -/
theorem decidingSpelling?_of_last (distinct : patch.hasDistinctKeys = true)
    (free : base.firstConflict? patch = none)
    (last : patch.lastSpelling? property = some (key, value)) :
    ∃ deciding, decidingSpelling? property base patch = some deciding ∧
      (deciding.1.text = key.text ↔ KeepsLast property base patch key) ∧
      (deciding.1.text = key.text → deciding.2 = value) := by
  obtain ⟨member, spells⟩ := List.mem_filter.mp (List.mem_of_getLast? last)
  have inPatch := find?_of_mem_leaves distinct member
  cases inBase : base.find? key with
  | none =>
    -- The spelling itself is one that only the patch has, and the last of these.
    refine ⟨(key, value), ?_, ⟨fun _ => .inl inBase, fun _ => rfl⟩, fun _ => rfl⟩
    rw [decidingSpelling?, lastAdded_of_absent inBase last, Option.some_or]
  | some entry =>
    have keeps : KeepsLast property base patch key ↔
        (base.lastSpelling? property).map (·.1.text) = some key.text ∧
          ∀ leaf ∈ patch.spellings property, (base.find? leaf.1).isSome := by
      simp [KeepsLast, inBase]
    rw [keeps]
    cases added : ((patch.spellings property).filter
        fun leaf => (base.find? leaf.1).isNone).getLast? with
    | some other =>
      -- A spelling that only the patch has comes last in the merge, and the base has the other key.
      obtain ⟨given, absent⟩ := List.mem_filter.mp (List.mem_of_getLast? added)
      rw [Option.isNone_iff_eq_none] at absent
      have differs : ¬ other.1.text = key.text := by
        intro same
        rw [find?_congr (Key.beq_iff.mpr same), inBase] at absent
        cases absent
      refine ⟨other, by rw [decidingSpelling?, added, Option.some_or], ⟨?_, ?_⟩, ?_⟩
      · exact fun same => absurd same differs
      · rintro ⟨_, known⟩
        simpa [absent] using known other given
      · exact fun same => absurd same differs
    | none =>
      -- All spellings of the patch are keys of the base, so the last of the base stays the last.
      have known : ∀ leaf ∈ patch.spellings property, (base.find? leaf.1).isSome := by
        rw [List.getLast?_eq_none_iff, List.filter_eq_nil_iff] at added
        intro leaf given
        simpa [Option.isSome_iff_ne_none] using added leaf given
      obtain ⟨final, ends⟩ := Option.isSome_iff_exists.mp
        (lastSpelling?_of_present free inPatch (beq_iff_eq.mp spells) (by simp [inBase]))
      refine ⟨patch.replaced final, ?_, ?_, ?_⟩
      · rw [decidingSpelling?, added, Option.none_or, ends, Option.map_some]
      · rw [key_replaced, ends, Option.map_some, Option.some.injEq]
        exact ⟨fun alike => ⟨alike, known⟩, And.left⟩
      · rw [key_replaced]
        intro alike
        rw [replaced, find?_congr (Key.beq_iff.mpr alike), inPatch]

end Spec

end ScopedStyle
