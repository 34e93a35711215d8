import ScopedStyle.Proofs.LastDeclarations
import ScopedStyle.Proofs.OverrideFrame

/-! Which value an override leaves a property with. In the scopes that the patch has this is what the
patch alone leaves it with, unless another spelling of the property comes last in the merge: the base
keeps the order of its keys, and what only the patch has comes after them. -/
namespace ScopedStyle

/-- The value that a rule leaves a property with, without the box sizing that closes every root rule. -/
def ScopeRule.lastDeclared (node : ScopeRule) (property : String) : Option String :=
  ScopedStyle.lastDeclared property
    (if node.path.isEmpty then node.rule.declarations.dropLast else node.rule.declarations)

namespace Spec

/-- The scope that a path leads to, and the empty one where it leads to none. -/
def scopeAt (spec : Spec Key) (path : List String) : Spec Key :=
  match spec.entryAt? (path.map .ofText) with
  | some (.scope inner) => inner
  | _ => .nil

/-! ## Scopes of the patch -/

theorem scope_unique {spec first second : Spec Key} (distinct : spec.hasDistinctKeys = true)
    {path : List String} (member : (path, first) ∈ spec.scopes) (also : (path, second) ∈ spec.scopes) :
    first = second := by
  rw [mem_scopes_iff distinct] at member also
  cases member.symm.trans also
  rfl

theorem paths_settled (spec : Spec Key) : spec.settled.scopes.map (·.1) = spec.scopes.map (·.1) := by
  rw [scopes_settled, List.map_map]
  rfl

/-- Where the patch has a scope, the merge has it merged onto that of the base. -/
theorem mem_scopes_patched {base patch changes : Spec Key} (free : base.firstConflict? patch = none)
    (distinct : base.hasDistinctKeys = true) (further : patch.hasDistinctKeys = true)
    {path : List String} (inPatch : (path, changes) ∈ patch.scopes) :
    (path, (base.scopeAt path).patched changes) ∈ (base.patched patch).scopes ∧
      (base.scopeAt path).firstConflict? changes = none := by
  rw [mem_scopes_iff further] at inPatch
  rw [mem_scopes_iff (hasDistinctKeys_patched distinct further), entryAt?_patched free, inPatch,
    scopeAt]
  obtain absent | absent | ⟨_, _, _, leaf⟩ | ⟨inner, own, inBase, held, below⟩ :=
    entriesAt_without_conflict free (path.map .ofText)
  · have alone : (nil : Spec Key).patched changes = changes := (merge_eq_ok.mp (nil_merge changes)).2
    simp [absent, alone, firstConflict?_nil]
  · cases inPatch.symm.trans absent
  · cases inPatch.symm.trans leaf
  · cases inPatch.symm.trans held
    simp [inBase, Entry.overlaid, below]

end Spec

namespace Conventions

variable {conventions : Conventions} {style : Style} {spec : Spec Key}

/-! ## Rules -/

theorem lastDeclared_of_enclosed {node : ScopeRule} {declared : List Declaration}
    (declares : node.rule.declarations = enclosed node.path declared) {property : String}
    (leaves : (lastDeclared property declared).isSome) :
    node.lastDeclared property = lastDeclared property declared := by
  rw [ScopeRule.lastDeclared, declares]
  cases node.path with
  | nil =>
    have opened : (enclosed [] declared).dropLast = [boxSizing] ++ declared := by
      rw [enclosed, List.dropLast_concat, List.singleton_append]
    rw [List.isEmpty_nil, if_pos rfl, opened, lastDeclared_append]
    exact Option.or_of_isSome leaves
  | cons first further => rfl

/-- A rule leaves a property with the value that its last spelling in the scope does. -/
theorem Makes.lastDeclared_of_scope (made : conventions.Makes style)
    (kept : style.spec = spec.settled) {node : ScopeRule} (member : node ∈ style.root.preorder) :
    ∃ scope, (node.path, scope) ∈ spec.scopes ∧
      ∀ property last, scope.lastSpelling? property = some last →
        node.lastDeclared property = lastValue conventions.unit last ∧
          (node.lastDeclared property).isSome := by
  obtain ⟨held, declared, within, ran, declares⟩ := made.declarations_of_scope member
  rw [kept] at within
  obtain ⟨scope, inside, rfl⟩ := Spec.mem_scopes_settled within
  refine ⟨scope, inside, fun property last spelled => ?_⟩
  obtain ⟨settles, leaves⟩ := Spec.lastDeclared_of_declarations ran property
  rw [spelled, Option.isSome_some] at leaves
  rw [lastDeclared_of_enclosed declares (leaves rfl), settles, spelled, Option.bind_some]
  rw [settles, spelled, Option.bind_some] at leaves
  exact ⟨rfl, leaves rfl⟩

/-! ## Overriding -/

/-- **The last spelling decides.** For each scope of the patch there is a rule of the patch alone and one
of the override. Where the scope has leaves for a property, the overridden rule leaves the property with
the value of the last spelling in the merge, which is the last that only the patch has, or else the last
of the base with the value that the patch has for it. The key of this is that of the last spelling of the
patch exactly if the base does not have it, or has it last and the patch has no spelling that the base
lacks. Then the property has the value that the patch alone leaves it with. -/
theorem override_leaves_last_spelling {source other : NameSource} {base : OverrideBase}
    {spec : Mapping Key} {patch : GivenValue} {baseName ownName : Value} {result own : Style}
    (given : base.spec? = .ok (spec.spec.mapKeys Key.toValue))
    (ran : (conventions.override source base patch baseName).1 = .ok result)
    (alone : (conventions.compile other patch ownName).1 = .ok own) :
    ∃ changes : Spec Key, patch.value.spec? = some (changes.mapKeys Key.toValue) ∧
      own.root.preorder.map (·.path) = changes.scopes.map (·.1) ∧
      ∀ node ∈ own.root.preorder, ∃ scope, (node.path, scope) ∈ changes.scopes ∧
        (∃ now ∈ result.root.preorder, now.path = node.path) ∧
        ∀ now ∈ result.root.preorder, now.path = node.path →
          ∀ property, scope.spellings property ≠ [] → ∃ last deciding,
            scope.lastSpelling? property = some last ∧
            Spec.decidingSpelling? property (spec.spec.scopeAt node.path) scope = some deciding ∧
            (node.lastDeclared property).isSome ∧
            node.lastDeclared property = lastValue conventions.unit last ∧
            (now.lastDeclared property).isSome ∧
            now.lastDeclared property = lastValue conventions.unit deciding ∧
            (deciding.1.text = last.1.text ↔
              Spec.KeepsLast property (spec.spec.scopeAt node.path) scope last.1) ∧
            (Spec.KeepsLast property (spec.spec.scopeAt node.path) scope last.1 →
              now.lastDeclared property = node.lastDeclared property) := by
  have made : conventions.Makes own := .compiled alone
  have remade : conventions.Makes result := .overridden ran
  obtain ⟨⟨changes, further⟩, read, free, merged⟩ := spec_of_override given ran
  have distinct := spec.distinct
  have kept : own.spec = changes.settled := by
    have passed := (outline_of_compiled alone).1
    rw [Value.snapshot_of_spec? read, Spec.snapshot_mapKeys, Except.ok.injEq] at passed
    exact passed.symm
  have mergeDistinct := Spec.hasDistinctKeys_patched distinct further
  -- Both rules are read off the scopes with their path, that of the result off the merged scope.
  refine ⟨changes, read, by rw [made.paths, kept, Spec.paths_settled], fun node member => ?_⟩
  obtain ⟨scope, within, leaves⟩ := made.lastDeclared_of_scope kept member
  obtain ⟨inMerge, below⟩ := Spec.mem_scopes_patched free distinct further within
  have scopeDistinct : scope.hasDistinctKeys = true :=
    Spec.hasDistinctKeys_of_scopes further within
  refine ⟨scope, within, ?_, ?_⟩
  · have listed : node.path ∈ result.root.preorder.map (·.path) := by
      rw [remade.paths, merged, Spec.paths_settled]
      exact List.mem_map.mpr ⟨_, inMerge, rfl⟩
    exact List.mem_map.mp listed
  · intro now still same property spelled
    obtain ⟨last, ends⟩ : ∃ last, scope.lastSpelling? property = some last :=
      ⟨_, List.getLast?_eq_some_getLast spelled⟩
    obtain ⟨held, inside, leavesNow⟩ := remade.lastDeclared_of_scope merged still
    rw [same] at inside
    cases Spec.scope_unique mergeDistinct inside inMerge
    obtain ⟨deciding, decides, keeps, valued⟩ :=
      Spec.decidingSpelling?_of_last scopeDistinct below ends
    obtain ⟨ownValue, declares⟩ := leaves property last ends
    obtain ⟨newValue, redeclares⟩ :=
      leavesNow property deciding ((Spec.lastSpelling?_patched _ _ _).trans decides)
    refine ⟨last, deciding, ends, decides, declares, ownValue, redeclares, newValue, keeps, ?_⟩
    intro keep
    have text := keeps.mpr keep
    rw [newValue, ownValue, lastValue, lastValue, text, valued text]

/-- A base in which a property has two spellings, at the root and in a scope. -/
private def spelledBase : Spec Key :=
  .leaf (.ofText "fontSize") (.int 1) (.leaf (.ofText "font-size") (.int 2)
    (.scope (.ofText "on") none (.leaf (.ofText "fontSize") (.int 4) .nil) .nil))

private def spelledMapping : Mapping Key := ⟨spelledBase, by decide⟩

/-- A patch with one of the spellings at the root, and with both in the scope. -/
private def spelledPatch : Spec Key :=
  .leaf (.ofText "fontSize") (.int 3)
    (.scope (.ofText "on") none (.leaf (.ofText "fontSize") (.int 5)
      (.leaf (.ofText "font-size") (.int 6) .nil)) .nil)

private def spelledValue : GivenValue := ⟨spelledPatch.toValue, by decide⟩

private def spelledResult : Except Fault Style :=
  (override {} .fresh (.spec spelledBase.toValue) spelledValue (.text "text")).1

private def spelledAlone : Except Fault Style :=
  (compile {} .fresh spelledValue (.text "text")).1

/-- In the scope the patch decides, with a spelling that the base lacks there. -/
theorem override_leaves_last_spelling_of_scope :
    ∃ result own, spelledResult = .ok result ∧ spelledAlone = .ok own ∧
      ∃ node ∈ own.root.preorder, ∃ now ∈ result.root.preorder, node.path = ["on"] ∧
        now.path = ["on"] ∧ (node.lastDeclared "font-size").isSome ∧
        now.lastDeclared "font-size" = node.lastDeclared "font-size" := by
  have runs : spelledResult.isOk = true := by decide +kernel
  have compiles : spelledAlone.isOk = true := by decide +kernel
  obtain ⟨result, ran⟩ := exists_of_isOk runs
  obtain ⟨own, alone⟩ := exists_of_isOk compiles
  have walk : spelledAlone.toOption.map (fun own => own.root.preorder.map (·.path)) =
      some [[], ["on"]] := by decide +kernel
  rw [alone] at walk
  have paths : own.root.preorder.map (·.path) = [[], ["on"]] := Option.some.inj walk
  have listed : ["on"] ∈ own.root.preorder.map (·.path) := by
    rw [paths]
    decide
  obtain ⟨node, member, path⟩ := List.mem_map.mp listed
  obtain ⟨changes, read, _, leaves⟩ :=
    @override_leaves_last_spelling {} _ _ _ spelledMapping spelledValue _ _ _ _ rfl ran alone
  have given : spelledValue.value.spec? = some (spelledPatch.mapKeys Key.toValue) := rfl
  have same : spelledPatch = changes :=
    Spec.mapKeys_injective Key.toValue_injective (Option.some.inj (given.symm.trans read))
  subst same
  obtain ⟨scope, within, ⟨now, still, there⟩, decided⟩ := leaves node member
  rw [path] at within
  have found : scope =
      .leaf (.ofText "fontSize") (.int 5) (.leaf (.ofText "font-size") (.int 6) .nil) := by
    simpa [spelledPatch, Spec.scopes, Spec.scopesBelow, Key.ofText] using within
  subst found
  obtain ⟨last, deciding, ends, _, declares, _, _, _, _, keep⟩ :=
    decided now still there "font-size" (by decide +kernel)
  have spelled : ((Spec.leaf (.ofText "fontSize") (.int 5) (.leaf (.ofText "font-size") (.int 6)
      .nil)).lastSpelling? "font-size").map (·.1.text) = some "font-size" := by decide +kernel
  rw [ends] at spelled
  have final : last.1.text = (Key.ofText "font-size").text := Option.some.inj spelled
  refine ⟨result, own, ran, alone, node, member, now, still, path, there.trans path, declares,
    keep (.inl ?_)⟩
  rw [path, Spec.find?_congr (Key.beq_iff.mpr final)]
  rfl

/-- At the root another spelling, which only the base has, comes last and overrules the patch. -/
theorem base_spelling_overrules_patch :
    ∃ result own, spelledResult = .ok result ∧ spelledAlone = .ok own ∧
      own.root.scope.path = [] ∧ result.root.scope.path = [] ∧
      (.ofText "fontSize", .int 3) ∈ spelledPatch.leaves ∧ hyphenated "fontSize" = "font-size" ∧
      own.root.scope.lastDeclared "font-size" = some "3px" ∧
      result.root.scope.lastDeclared "font-size" = some "2px" := by
  have runs : spelledResult.isOk = true := by decide +kernel
  have compiles : spelledAlone.isOk = true := by decide +kernel
  obtain ⟨result, ran⟩ := exists_of_isOk runs
  obtain ⟨own, alone⟩ := exists_of_isOk compiles
  have patched : spelledResult.toOption.map (fun result =>
      (result.root.scope.path, result.root.scope.lastDeclared "font-size")) =
        some ([], some "2px") := by decide +kernel
  have single : spelledAlone.toOption.map (fun own =>
      (own.root.scope.path, own.root.scope.lastDeclared "font-size")) =
        some ([], some "3px") := by decide +kernel
  rw [ran] at patched
  rw [alone] at single
  obtain ⟨newPath, newValue⟩ := Prod.mk.inj (Option.some.inj patched)
  obtain ⟨path, value⟩ := Prod.mk.inj (Option.some.inj single)
  exact ⟨result, own, ran, alone, path, newPath, List.mem_cons_self, by decide +kernel, value, newValue⟩

end Conventions

end ScopedStyle
