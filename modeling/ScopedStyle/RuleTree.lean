import ScopedStyle.Declaration

/-! Rules and the tree they form: one rule for each scope of a spec, with the rules of the scopes in
it below. Walking the tree from the root gives the order in which the rules are written. -/
namespace ScopedStyle

/-- Selectors of the same elements, and what is declared for these. -/
structure Rule where
  selectors : List String
  declarations : List Declaration
deriving DecidableEq

namespace Rule

/-- The selectors as one. -/
def selector (rule : Rule) : String :=
  String.intercalate ", " rule.selectors

/-- The text between the braces, each declaration closed by a semicolon. -/
def body (rule : Rule) : String :=
  String.join (rule.declarations.map fun declaration => declaration.css ++ ";")

/-- A rule in a style sheet. -/
def css (rule : Rule) : String :=
  rule.selector ++ " \x7b " ++ rule.body ++ " \x7d"

end Rule

/-- What a scope of a spec is compiled to. -/
structure ScopeRule where
  path : List String
  className : String
  rule : Rule
deriving DecidableEq

/-- A compiled scope with the compiled scopes in it. -/
structure RuleTree where
  scope : ScopeRule
  children : List RuleTree

mutual

/-- A compiled scope, and after it every one below, each before those in it. -/
def RuleTree.preorder : RuleTree → List ScopeRule
  | ⟨scope, children⟩ => scope :: forestPreorder children

/-- The walks of some compiled scopes, one after the other. -/
def forestPreorder : List RuleTree → List ScopeRule
  | [] => []
  | node :: rest => node.preorder ++ forestPreorder rest

end

end ScopedStyle
