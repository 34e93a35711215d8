import ScopedStyle.Assignment
import ScopedStyle.Value

/-! When two values are the same, which decides what a mapping takes for the same key. Numbers are
compared by what they denote, texts by their characters alone, mappings without regard to order, and
other objects by their marks or by their content if they have one. -/
namespace ScopedStyle

namespace Value

/-- Whether a value is the object with the given identity. -/
def hasMark (value : Value) (mark : Nat) : Bool :=
  match value.traits? with
  | some traits => traits.mark == mark
  | none => false

/-- The integer a value denotes; truth values count as one and zero. -/
def integer? : Value → Option Int
  | .int number => some number
  | .bool truth => some (if truth then 1 else 0)
  | .float number => number.integer?
  | _ => none

/-- Whether two values denote the same number. -/
def sameNumber : Value → Value → Bool
  | .float x, .float y => x.equals y
  | x, y =>
    match x.integer?, y.integer? with
    | some m, some n => m == n
    | _, _ => false

mutual

/-- Whether two values are the same. -/
def same : Value → Value → Bool
  | .text characters, other => other.text? == some characters
  | .derived traits content, other =>
    match content with
    | .text characters => other.text? == some characters
    | content => other.text?.isNone && (other.hasMark traits.mark || content.same other.content)
  | .object bare, other => other.text?.isNone && other.hasMark bare.mark
  | .null, other =>
    match other with
    | .null => true
    | _ => false
  | .type name converts, other =>
    match other with
    | .type name' converts' => name == name' && converts == converts'
    | _ => false
  | .foreign thing, other =>
    match other with
    | .foreign thing' => thing.kind == thing'.kind && thing.mark == thing'.mark
    | _ => false
  | .list items, other =>
    match other.content with
    | .list others => sameItems items others
    | _ => false
  | .tuple items, other =>
    match other.content with
    | .tuple others => sameItems items others
    | _ => false
  | .map entries, other =>
    match other.content with
    | .map others => entries.length == others.length && coveredBy entries others
    | _ => false
  | .int number, other => sameNumber (.int number) other.content
  | .float number, other => sameNumber (.float number) other.content
  | .bool truth, other => sameNumber (.bool truth) other.content

/-- Whether two arrays hold the same values in the same order. -/
def sameItems : List Value → List Value → Bool
  | [], [] => true
  | item :: rest, other :: others => item.same other && sameItems rest others
  | _, _ => false

/-- Whether every entry is also among the others, in any place. -/
def coveredBy : List (Value × Value) → List (Value × Value) → Bool
  | [], _ => true
  | (key, value) :: rest, others =>
    (others.any fun other => key.same other.1 && value.same other.2) && coveredBy rest others

end

instance : BEq Value where
  beq := same

/-- The mapping made by assigning entries one after the other. -/
def mapping (entries : List (Value × Value)) : Value :=
  .map (assignAll [] entries)

mutual

/-- The first kind met in a value that cannot be part of a key, since its objects may change. -/
def unhashable? : Value → Option String
  | .list _ => some "list"
  | .map _ => some "dict"
  | .tuple items => firstUnhashable? items
  | .foreign thing =>
    if thing.kind == "set" || thing.kind == "bytearray" then some thing.kind else none
  | .derived traits (.list _) => some traits.kind
  | .derived traits (.map _) => some traits.kind
  | .derived _ content => content.unhashable?
  | _ => none

/-- The first such kind met in an array. -/
def firstUnhashable? : List Value → Option String
  | [] => none
  | item :: rest => item.unhashable?.or (firstUnhashable? rest)

end

end Value

end ScopedStyle
