import ScopedStyle.Declaration
import ScopedStyle.Proofs.Snapshots

/-! The scopes of a spec, laid out depth first: a scope comes before those in it, and these come in
the order of their keys. What a scope declares is told from the leaves directly in it. -/
namespace ScopedStyle.Spec

variable {κ : Type}

/-- The leaves directly in a spec. -/
def leaves : Spec κ → List (κ × Value)
  | .nil => []
  | .leaf key value rest => (key, value) :: rest.leaves
  | .scope _ _ _ rest => rest.leaves

/-- The names of the scopes in a spec, at every depth. -/
def variantNames : Spec κ → List κ
  | .nil => []
  | .leaf _ _ rest => rest.variantNames
  | .scope key _ inner rest => key :: (inner.variantNames ++ rest.variantNames)

/-- The scopes in a spec, with their paths, where the spec itself has the path given. -/
def scopesBelow (path : List String) : Spec Key → List (List String × Spec Key)
  | .nil => []
  | .leaf _ _ rest => rest.scopesBelow path
  | .scope key _ inner rest =>
    (path ++ [key.text], inner) ::
      (inner.scopesBelow (path ++ [key.text]) ++ rest.scopesBelow path)

/-- A spec and the scopes in it, with their paths. -/
def scopes (spec : Spec Key) : List (List String × Spec Key) :=
  ([], spec) :: spec.scopesBelow []

/-- What the leaves directly in a spec declare, one after the other. -/
def declarations (unit : String) (spec : Spec Key) : Except Fault (List Declaration) := do
  let declared ← spec.leaves.mapM fun held => held.2.declarations unit held.1.text
  .ok declared.flatten

/-! ## Declarations entry by entry -/

theorem declarations_leaf (unit : String) (key : Key) (value : Value) (rest : Spec Key) :
    (Spec.leaf key value rest).declarations unit = (do
      let own ← value.declarations unit key.text
      let others ← rest.declarations unit
      .ok (own ++ others)) := by
  simp only [declarations, leaves, List.mapM_cons]
  cases value.declarations unit key.text with
  | error fault => rfl
  | ok own => cases rest.leaves.mapM fun held => held.2.declarations unit held.1.text <;> rfl

theorem declarations_leaf_eq_ok {unit : String} {key : Key} {value : Value} {rest : Spec Key}
    {declared : List Declaration} :
    (Spec.leaf key value rest).declarations unit = .ok declared ↔
      ∃ own others, value.declarations unit key.text = .ok own ∧
        rest.declarations unit = .ok others ∧ own ++ others = declared := by
  rw [declarations_leaf]
  constructor
  · intro ran
    obtain ⟨own, first, ran⟩ := bind_eq_ok.mp ran
    obtain ⟨others, further, same⟩ := bind_eq_ok.mp ran
    exact ⟨own, others, first, further, Except.ok.inj same⟩
  · rintro ⟨own, others, first, further, rfl⟩
    exact bind_eq_ok.mpr ⟨own, first, bind_eq_ok.mpr ⟨others, further, rfl⟩⟩

theorem declarations_scope (unit : String) (key : Key) (traits : Option (Traits Value))
    (inner rest : Spec Key) :
    (Spec.scope key traits inner rest).declarations unit = rest.declarations unit := rfl

/-- A spec has declarations if each of the leaves directly in it has some. -/
theorem declarations_isOk {unit : String} {spec : Spec Key} :
    (∃ declared, spec.declarations unit = .ok declared) ↔
      ∀ held ∈ spec.leaves, ∃ declared, held.2.declarations unit held.1.text = .ok declared := by
  simp only [declarations, bind_eq_ok, ← mapM_isOk]
  constructor
  · rintro ⟨_, declared, ran, _⟩
    exact ⟨declared, ran⟩
  · rintro ⟨declared, ran⟩
    exact ⟨_, declared, ran, rfl⟩

theorem declarations_congr {first second : Spec Key} (same : first.leaves = second.leaves)
    (unit : String) : first.declarations unit = second.declarations unit := by
  simp only [declarations, same]

/-! ## Paths -/

/-- The path of a scope goes on from that of the spec it is in, by a key that is there. -/
private theorem path_of_scopesBelow {spec : Spec Key} {path found : List String}
    (member : found ∈ (spec.scopesBelow path).map (·.1)) :
    ∃ key further, found = path ++ key.text :: further ∧ (spec.find? key).isSome := by
  induction spec generalizing path with
  | nil => exact absurd member List.not_mem_nil
  | leaf first value rest ih =>
    obtain ⟨key, further, same, isKey⟩ := ih member
    refine ⟨key, further, same, ?_⟩
    by_cases met : (first == key) = true <;> simp [find?, met, isKey]
  | scope first traits inner rest ihInner ih =>
    have here : ((Spec.scope first traits inner rest).find? first).isSome := by simp [find?]
    simp only [scopesBelow, List.map_cons, List.map_append, List.mem_cons, List.mem_append]
      at member
    rcases member with rfl | inside | after
    · exact ⟨first, [], rfl, here⟩
    · obtain ⟨key, further, rfl, _⟩ := ihInner inside
      exact ⟨first, key.text :: further, by simp, here⟩
    · obtain ⟨key, further, same, isKey⟩ := ih after
      refine ⟨key, further, same, ?_⟩
      by_cases met : (first == key) = true <;> simp [find?, met, isKey]

/-- Where no scope has a key twice, no path leads to two scopes. -/
theorem nodup_paths_of_scopesBelow {spec : Spec Key} (distinct : spec.hasDistinctKeys = true)
    (path : List String) : ((spec.scopesBelow path).map (·.1)).Nodup := by
  induction spec generalizing path with
  | nil => exact List.nodup_nil
  | leaf key value rest ih =>
    simp only [hasDistinctKeys, Bool.and_eq_true] at distinct
    exact ih distinct.2 path
  | scope key traits inner rest ihInner ih =>
    simp only [hasDistinctKeys, Bool.and_eq_true, Option.isNone_iff_eq_none] at distinct
    obtain ⟨⟨fresh, inside⟩, others⟩ := distinct
    -- After the common path, the scopes in this one and those after it go on with other keys.
    have apart {found : List String} (member : found ∈ (rest.scopesBelow path).map (·.1))
        (further : List String) : found ≠ path ++ key.text :: further := by
      obtain ⟨other, _, rfl, isKey⟩ := path_of_scopesBelow member
      intro same
      have text : other.text = key.text :=
        (List.cons.inj (List.append_cancel_left same)).1
      rw [find?_congr (Key.beq_iff.mpr text), fresh] at isKey
      cases isKey
    simp only [scopesBelow, List.map_cons, List.map_append]
    refine List.nodup_cons.mpr ⟨?_, List.nodup_append.mpr
      ⟨ihInner inside (path ++ [key.text]), ih others path, ?_⟩⟩
    · rw [List.mem_append]
      rintro (inner | after)
      · obtain ⟨other, further, same, _⟩ := path_of_scopesBelow inner
        simpa using congrArg List.length same
      · exact apart after [] rfl
    · intro found inner other after same
      obtain ⟨first, further, rfl, _⟩ := path_of_scopesBelow inner
      exact apart after (first.text :: further) (by rw [← same]; simp)

/-- The scope that a scope is directly in comes before it. -/
theorem parent_before_of_scopesBelow {spec : Spec Key} {path parent : List String}
    {segment : String} {before after : List (List String)}
    (split : (spec.scopesBelow path).map (·.1) = before ++ (parent ++ [segment]) :: after) :
    parent = path ∨ parent ∈ before := by
  induction spec generalizing path before after with
  | nil => simp [scopesBelow] at split
  | leaf key value rest ih => exact ih split
  | scope key traits inner rest ihInner ih =>
    simp only [scopesBelow, List.map_cons, List.map_append] at split
    cases before with
    | nil =>
      have same := (List.cons.inj split).1
      exact .inl (List.append_inj_left' same rfl).symm
    | cons first before =>
      -- What is looked at lies behind the scopes in this one, or among them.
      obtain ⟨rfl, others⟩ := List.cons.inj split
      obtain ⟨middle, rfl, further⟩ | ⟨middle, inside, beside⟩ :=
        List.append_eq_append_iff.mp others
      · rcases ih further with here | earlier
        · exact .inl here
        · exact .inr (by simp [earlier])
      · cases middle with
        | nil =>
          have alone : (rest.scopesBelow path).map (·.1) = [] ++ (parent ++ [segment]) :: after := by
            simpa using beside.symm
          rcases ih alone with here | earlier
          · exact .inl here
          · cases earlier
        | cons second middle =>
          obtain ⟨rfl, _⟩ := List.cons.inj beside
          rcases ihInner inside with here | earlier
          · exact .inr (by simp [here])
          · exact .inr (by simp [earlier])

/-- Every scope that a path leads through has the part of the path up to it. -/
theorem take_mem_scopesBelow {spec : Spec Key} {path found : List String}
    (member : found ∈ (spec.scopesBelow path).map (·.1)) {depth : Nat}
    (below : path.length < depth) : found.take depth ∈ (spec.scopesBelow path).map (·.1) := by
  induction spec generalizing path with
  | nil => exact absurd member List.not_mem_nil
  | leaf key value rest ih => exact ih member below
  | scope key traits inner rest ihInner ih =>
    have deeper : (path ++ [key.text]).length = path.length + 1 := by simp
    simp only [scopesBelow, List.map_cons, List.map_append, List.mem_cons, List.mem_append]
      at member ⊢
    rcases member with rfl | inside | after
    · exact .inl (List.take_of_length_le (by omega))
    · by_cases further : path.length + 1 < depth
      · exact .inr (.inl (ihInner inside (by omega)))
      · obtain ⟨_, others, rfl, _⟩ := path_of_scopesBelow inside
        have here : depth = (path ++ [key.text]).length := by omega
        rw [here, List.take_left]
        exact .inl rfl
    · exact .inr (.inr (ih after below))

/-- A path leads by names of scopes only. -/
theorem name_of_scopesBelow {spec : Spec Key} {path : List String}
    {scope : List String × Spec Key} (member : scope ∈ spec.scopesBelow path) {segment : String}
    (within : segment ∈ scope.1) :
    segment ∈ path ∨ ∃ name ∈ spec.variantNames, name.text = segment := by
  induction spec generalizing path with
  | nil => exact absurd member List.not_mem_nil
  | leaf key value rest ih => exact ih member
  | scope key traits inner rest ihInner ih =>
    simp only [scopesBelow, List.mem_cons, List.mem_append] at member
    simp only [variantNames, List.mem_cons, List.mem_append, exists_eq_or_imp]
    rcases member with rfl | inside | after
    · rcases List.mem_append.mp within with above | last
      · exact .inl above
      · exact .inr (.inl (List.mem_singleton.mp last).symm)
    · rcases ihInner inside with above | ⟨name, named, same⟩
      · rcases List.mem_append.mp above with above | last
        · exact .inl above
        · exact .inr (.inl (List.mem_singleton.mp last).symm)
      · exact .inr (.inr ⟨name, .inl named, same⟩)
    · rcases ih after with above | ⟨name, named, same⟩
      · exact .inl above
      · exact .inr (.inr ⟨name, .inr named, same⟩)

theorem path_ne_nil_of_scopesBelow {spec : Spec Key} {path : List String}
    {scope : List String × Spec Key} (member : scope ∈ spec.scopesBelow path) : scope.1 ≠ [] := by
  obtain ⟨key, further, same, _⟩ := path_of_scopesBelow (List.mem_map_of_mem member)
  simp [same]

/-- No path leads to two scopes, and that of the root only to the root. -/
theorem nodup_paths_of_scopes {spec : Spec Key} (distinct : spec.hasDistinctKeys = true) :
    (spec.scopes.map (·.1)).Nodup := by
  refine List.nodup_cons.mpr ⟨?_, nodup_paths_of_scopesBelow distinct []⟩
  intro member
  obtain ⟨scope, inside, root⟩ := List.mem_map.mp member
  exact path_ne_nil_of_scopesBelow inside root

/-- Below a spec are the scopes in it with a path that goes anywhere. -/
theorem path_of_scopesBelow_iff {spec : Spec Key} {path : List String} :
    path ∈ (spec.scopesBelow []).map (·.1) ↔ path ≠ [] ∧ path ∈ spec.scopes.map (·.1) := by
  rw [scopes, List.map_cons, List.mem_cons]
  constructor
  · intro member
    obtain ⟨scope, below, rfl⟩ := List.mem_map.mp member
    exact ⟨path_ne_nil_of_scopesBelow below, .inr member⟩
  · rintro ⟨proper, root | below⟩
    · exact absurd root proper
    · exact below

/-! ## Checked specs -/

theorem leaves_settled (spec : Spec κ) :
    spec.settled.leaves = spec.leaves.map fun held => (held.1, held.2.settled) := by
  induction spec with
  | nil => rfl
  | leaf key value rest ih => simp [settled, leaves, ih]
  | scope key traits inner rest _ ih => simp [settled, leaves, ih]

theorem variantNames_settled (spec : Spec κ) : spec.settled.variantNames = spec.variantNames := by
  induction spec with
  | nil => rfl
  | leaf key value rest ih => simp [settled, variantNames, ih]
  | scope key traits inner rest ihInner ih => simp [settled, variantNames, ihInner, ih]

theorem scopesBelow_settled (spec : Spec Key) (path : List String) :
    spec.settled.scopesBelow path =
      (spec.scopesBelow path).map fun scope => (scope.1, scope.2.settled) := by
  induction spec generalizing path with
  | nil => rfl
  | leaf key value rest ih => simp [settled, scopesBelow, ih]
  | scope key traits inner rest ihInner ih => simp [settled, scopesBelow, ihInner, ih]

theorem scopes_settled (spec : Spec Key) :
    spec.settled.scopes = spec.scopes.map fun scope => (scope.1, scope.2.settled) := by
  rw [scopes, scopesBelow_settled, scopes, List.map_cons]

theorem mem_scopes_settled {spec held : Spec Key} {path : List String}
    (member : (path, held) ∈ spec.settled.scopes) :
    ∃ scope, (path, scope) ∈ spec.scopes ∧ scope.settled = held := by
  rw [scopes_settled] at member
  obtain ⟨⟨found, scope⟩, within, same⟩ := List.mem_map.mp member
  obtain ⟨rfl, rfl⟩ := Prod.mk.inj same
  exact ⟨scope, within, rfl⟩

/-- The scopes of a settled spec are settled. -/
theorem settled_of_scopes {spec held : Spec Key} {path : List String}
    (settled : spec.settled = spec) (member : (path, held) ∈ spec.scopes) :
    held.settled = held := by
  rw [← settled] at member
  obtain ⟨scope, _, rfl⟩ := mem_scopes_settled member
  exact scope.settled_settled

/-- A checked spec has a key twice in a scope only if the spec that was checked has. -/
theorem hasDistinctKeys_of_snapshot {spec : Spec Value} {path : List Key} {checked : Spec Key}
    (ran : spec.snapshot path = .ok checked) :
    checked.hasDistinctKeys = spec.hasDistinctKeys := by
  rw [← hasDistinctKeys_mapKeys Key.toValue_beq_toValue, mapKeys_of_snapshot ran,
    hasDistinctKeys_settled]

end ScopedStyle.Spec
