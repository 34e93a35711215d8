import ScopedStyle.JsonToken
import ScopedStyle.ValueEquality

/-! Reading a data file in object notation. The tokens are gone through once; what has been read of
the arrays and objects that are still open is kept with the place where the next value belongs. -/
namespace ScopedStyle

/-- Where a value belongs: it is the whole document, or it comes after others in an array, or under
a name after other entries of an object. Items are kept last one first. -/
inductive JsonContext where
  | document
  | item (before : List Value) (outer : JsonContext)
  | entry (before : List (Value × Value)) (name : String) (outer : JsonContext)

/-- How far reading has come, by what may follow. -/
inductive JsonState where
  | anyValue (context : JsonContext)
  | firstItem (outer : JsonContext)
  | itemEnd (items : List Value) (outer : JsonContext)
  | firstName (outer : JsonContext)
  | nextName (entries : List (Value × Value)) (outer : JsonContext)
  | colon (entries : List (Value × Value)) (name : String) (outer : JsonContext)
  | entryEnd (entries : List (Value × Value)) (outer : JsonContext)
  | complete (value : Value)

/-- Reading on after a value. A name that comes again in an object keeps its place and gets the new
value. -/
def JsonContext.deliver (value : Value) : JsonContext → JsonState
  | .document => .complete value
  | .item before outer => .itemEnd (value :: before) outer
  | .entry before name outer => .entryEnd (assign (.text name) value before) outer

namespace JsonState

/-- Reading a token where a value may stand. -/
def valueStep (context : JsonContext) (offset : Nat) : JsonToken → Except JsonFault JsonState
  | .openArray => .ok (.firstItem context)
  | .openObject => .ok (.firstName context)
  | .text characters => .ok (context.deliver (.text characters))
  | .scalar value => .ok (context.deliver value)
  | .badText fault => .error fault
  | _ => .error ⟨.noValue, offset⟩

/-- Reading a token where the name of an entry may stand. -/
def nameStep (entries : List (Value × Value)) (outer : JsonContext) (offset : Nat) :
    JsonToken → Except JsonFault JsonState
  | .text name => .ok (.colon entries name outer)
  | .badText fault => .error fault
  | _ => .error ⟨.noName, offset⟩

/-- Reading a token. -/
def step (state : JsonState) (positioned : Nat × JsonToken) : Except JsonFault JsonState :=
  let (offset, token) := positioned
  match state, token with
  | .anyValue context, token => valueStep context offset token
  | .firstItem outer, .closeArray => .ok (outer.deliver (.list []))
  | .firstItem outer, token => valueStep (.item [] outer) offset token
  | .itemEnd items outer, .comma => .ok (.anyValue (.item items outer))
  | .itemEnd items outer, .closeArray => .ok (outer.deliver (.list items.reverse))
  | .itemEnd _ _, _ => .error ⟨.noComma, offset⟩
  | .firstName outer, .closeObject => .ok (outer.deliver (.map []))
  | .firstName outer, token => nameStep [] outer offset token
  | .nextName entries outer, token => nameStep entries outer offset token
  | .colon entries name outer, .colon => .ok (.anyValue (.entry entries name outer))
  | .colon _ _ _, _ => .error ⟨.noColon, offset⟩
  | .entryEnd entries outer, .comma => .ok (.nextName entries outer)
  | .entryEnd entries outer, .closeObject => .ok (outer.deliver (.map entries))
  | .entryEnd _ _, _ => .error ⟨.noComma, offset⟩
  | .complete value, .finish => .ok (.complete value)
  | .complete _, _ => .error ⟨.trailingData, offset⟩

/-- The value that has been read, once reading is complete. -/
def result : JsonState → Except JsonFault Value
  | .complete value => .ok value
  | _ => .error ⟨.noValue, 0⟩

end JsonState

/-- The value that a data file holds. -/
def readJson (text : List Char) : Except JsonFault Value :=
  match text with
  | '\ufeff' :: _ => .error ⟨.byteOrderMark, 0⟩
  | _ => do
    let state ← (jsonTokens 0 0 text).foldlM JsonState.step (.anyValue .document)
    state.result

/-- The wording of a problem. -/
def JsonProblem.message : JsonProblem → String
  | .byteOrderMark => "Unexpected UTF-8 BOM (decode using utf-8-sig)"
  | .noValue => "Expecting value"
  | .noName => "Expecting property name enclosed in double quotes"
  | .noColon => "Expecting ':' delimiter"
  | .noComma => "Expecting ',' delimiter"
  | .trailingData => "Extra data"
  | .unterminatedText => "Unterminated string starting at"
  | .controlCharacter => "Invalid control character at"
  | .badEscape => "Invalid \\escape"
  | .badCodeUnit => "Invalid \\uXXXX escape"

/-- A problem of a data file with its place: the line and the column, both counted from one, and the
number of characters before it. -/
def JsonFault.message (text : List Char) (fault : JsonFault) : String :=
  let before := text.take fault.offset
  let line := before.count '\n' + 1
  let column := (before.reverse.takeWhile (· != '\n')).length + 1
  fault.problem.message ++ ": line " ++ line.repr ++ " column " ++ column.repr
    ++ " (char " ++ fault.offset.repr ++ ")"

end ScopedStyle
