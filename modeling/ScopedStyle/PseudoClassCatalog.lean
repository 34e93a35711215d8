import ScopedStyle.PseudoClasses

/-! A catalog of tables of pseudo-classes, referred to by number. Extending a table adds the new one
to the catalog and leaves the old one in it. -/
namespace ScopedStyle

/-- The tables made so far, in order. -/
structure PseudoClassCatalog where
  tables : List PseudoClasses

/-- What can be asked of a table of a catalog. -/
inductive CatalogQuestion where
  | extend (extra : List (String × String))
  | size
  | description
  | recognizes (name : Value)
  | selector (name : Value)

/-- What a catalog answers. -/
inductive CatalogAnswer where
  | number (value : Nat)
  | text (value : String)
  | truth (value : Bool)

namespace PseudoClassCatalog

/-- The catalog of a single table. -/
def ofTable (table : PseudoClasses) : PseudoClassCatalog := ⟨[table]⟩

/-- What a table answers on its own. -/
def answer (catalog : PseudoClassCatalog) (table : PseudoClasses) :
    CatalogQuestion → Except Fault CatalogAnswer
  | .extend _ => .ok (.number catalog.tables.length)
  | .size => .ok (.number table.size)
  | .description => .ok (.text table.description)
  | .recognizes name => (table.recognizes name).map .truth
  | .selector name => (table.nativeSelector name).map .text

/-- The catalog after a question about a table. -/
def after (catalog : PseudoClassCatalog) (table : PseudoClasses) :
    CatalogQuestion → PseudoClassCatalog
  | .extend extra => ⟨catalog.tables ++ [table.extend extra]⟩
  | _ => catalog

/-- Asking something of the table with a number. -/
def ask (catalog : PseudoClassCatalog) (number : Nat) (question : CatalogQuestion) :
    Except Fault CatalogAnswer × PseudoClassCatalog :=
  match catalog.tables[number]? with
  | some table => (catalog.answer table question, catalog.after table question)
  | none => (.error (.unknownNumber number), catalog)

end PseudoClassCatalog

end ScopedStyle
