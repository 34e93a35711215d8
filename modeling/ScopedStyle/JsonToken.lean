import ScopedStyle.DecimalReading
import ScopedStyle.Value

/-! The tokens of a data file in object notation. Each token is known by its first character, and
what is wrong inside a token is told by the place where reading it cannot go on. Beside the standard
numbers there are words for infinity and for what is no number. -/
namespace ScopedStyle

/-- What is wrong with a data file at a place. -/
inductive JsonProblem where
  | byteOrderMark
  | noValue
  | noName
  | noColon
  | noComma
  | trailingData
  | unterminatedText
  | controlCharacter
  | badEscape
  | badCodeUnit

/-- A problem and the number of characters before it. -/
structure JsonFault where
  problem : JsonProblem
  offset : Nat

/-- A token of a data file. -/
inductive JsonToken where
  | openArray
  | closeArray
  | openObject
  | closeObject
  | comma
  | colon
  | text (characters : String)
  | scalar (value : Value)
  /-- A quote that begins no text. -/
  | badText (fault : JsonFault)
  /-- A character that begins no token. -/
  | stray
  | finish

/-- Blanks between tokens. -/
def isJsonBlank (c : Char) : Bool :=
  c == ' ' || c == '\t' || c == '\n' || c == '\r'

/-- The value of a digit in base sixteen. -/
def hexDigit? (c : Char) : Option Nat :=
  if '0' ≤ c && c ≤ '9' then some (c.toNat - '0'.toNat)
  else if 'a' ≤ c && c ≤ 'f' then some (c.toNat - 'a'.toNat + 10)
  else if 'A' ≤ c && c ≤ 'F' then some (c.toNat - 'A'.toNat + 10)
  else none

/-- The code unit of four digits in base sixteen. -/
def codeUnit? (a b c d : Char) : Option Nat := do
  let a ← hexDigit? a
  let b ← hexDigit? b
  let c ← hexDigit? c
  let d ← hexDigit? d
  some (((a * 16 + b) * 16 + c) * 16 + d)

/-- What a backslash before a character stands for, apart from code units. -/
def simpleEscape? (c : Char) : Option Char :=
  if c == '"' || c == '\\' || c == '/' then some c
  else if c == 'b' then some '\x08'
  else if c == 'f' then some '\x0c'
  else if c == 'n' then some '\n'
  else if c == 'r' then some '\r'
  else if c == 't' then some '\t'
  else none

/-- The code units of a text up to its closing quote, and the offset after it. A code unit has to be
followed by something, be it the quote. -/
def textUnits (start offset : Nat) : List Char → Except JsonFault (List Nat × Nat)
  | [] | ['\\'] => .error ⟨.unterminatedText, start⟩
  | '"' :: _ => .ok ([], offset + 1)
  | '\\' :: 'u' :: a :: b :: c :: d :: next :: rest =>
    match codeUnit? a b c d with
    | some unit => do
      let (units, finish) ← textUnits start (offset + 6) (next :: rest)
      .ok (unit :: units, finish)
    | none => .error ⟨.badCodeUnit, offset + 1⟩
  | '\\' :: 'u' :: _ => .error ⟨.badCodeUnit, offset + 1⟩
  | '\\' :: escaped :: rest =>
    match simpleEscape? escaped with
    | some c => do
      let (units, finish) ← textUnits start (offset + 2) rest
      .ok (c.toNat :: units, finish)
    | none => .error ⟨.badEscape, offset⟩
  | c :: rest =>
    if c.toNat < 32 then .error ⟨.controlCharacter, offset⟩
    else do
      let (units, finish) ← textUnits start (offset + 1) rest
      .ok (c.toNat :: units, finish)

/-- The characters of code units: two surrogates that belong together make one. -/
def unitCharacters : List Nat → List Char
  | [] => []
  | [unit] => [Char.ofNat unit]
  | high :: low :: rest =>
    if 0xD800 ≤ high && high < 0xDC00 && 0xDC00 ≤ low && low < 0xE000 then
      Char.ofNat (0x10000 + (high - 0xD800) * 0x400 + (low - 0xDC00)) :: unitCharacters rest
    else Char.ofNat high :: unitCharacters (low :: rest)

/-- The words that are values. -/
def jsonWords : List (String × Value) := [
  ("null", .null),
  ("true", .bool true),
  ("false", .bool false),
  ("NaN", .float .nan),
  ("Infinity", .float .infinity),
  ("-Infinity", .float Binary64.infinity.negated)]

/-- The digits before a point: none, a zero alone, or as many as there are. -/
def wholeDigits (text : List Char) : List Char :=
  match text with
  | '0' :: _ => ['0']
  | _ => text.takeWhile Char.isDigit

/-- The digits after a point. Without a digit the point is not part of the number. -/
def fractionDigits (text : List Char) : List Char :=
  match text with
  | '.' :: rest => rest.takeWhile Char.isDigit
  | _ => []

/-- A sign in front of digits: whether it is a minus, and its length. -/
def leadingSign (text : List Char) : Bool × Nat :=
  match text with
  | '-' :: _ => (true, 1)
  | '+' :: _ => (false, 1)
  | _ => (false, 0)

/-- The power of ten at the end of a number and its length. Without a digit it is not part of the
number. -/
def exponentPart? (text : List Char) : Option (Int × Nat) :=
  match text with
  | c :: rest =>
    let (negative, width) := leadingSign rest
    let digits := (rest.drop width).takeWhile Char.isDigit
    if (c == 'e' || c == 'E') && !digits.isEmpty then
      some (Binary64.signed negative (Nat.ofDigitChars 10 digits 0), 1 + width + digits.length)
    else none
  | [] => none

/-- A number at the start of a text and its length. With a fraction or a power of ten it is held as
the nearest floating-point number. -/
def jsonNumber? (text : List Char) : Option (Value × Nat) :=
  let negative := text.head? == some '-'
  let width := if negative then 1 else 0
  let whole := wholeDigits (text.drop width)
  let afterWhole := text.drop (width + whole.length)
  let fraction := fractionDigits afterWhole
  let pointed := if fraction.isEmpty then 0 else 1 + fraction.length
  let power := exponentPart? (afterWhole.drop pointed)
  if whole.isEmpty then none
  else
    match power with
    | none =>
      if fraction.isEmpty then
        some (.int (Binary64.signed negative (Nat.ofDigitChars 10 whole 0)), width + whole.length)
      else some (decimal negative whole fraction 0, width + whole.length + pointed)
    | some (exponent, length) =>
      some (decimal negative whole fraction exponent, width + whole.length + pointed + length)
where
  decimal (negative : Bool) (whole fraction : List Char) (exponent : Int) : Value :=
    let size := Binary64.nearestDecimal (Nat.ofDigitChars 10 (whole ++ fraction) 0)
      (exponent - fraction.length)
    .float (if negative then size.negated else size)

/-- The token at the start of a text and its length; a token that nothing can follow has length
zero. -/
def jsonToken (offset : Nat) (text : List Char) : JsonToken × Nat :=
  match text with
  | [] => (.finish, 0)
  | '[' :: _ => (.openArray, 1)
  | ']' :: _ => (.closeArray, 1)
  | '\x7b' :: _ => (.openObject, 1)
  | '\x7d' :: _ => (.closeObject, 1)
  | ',' :: _ => (.comma, 1)
  | ':' :: _ => (.colon, 1)
  | '"' :: rest =>
    match textUnits offset (offset + 1) rest with
    | .ok (units, finish) => (.text (String.ofList (unitCharacters units)), finish - offset)
    | .error fault => (.badText fault, 0)
  | _ =>
    match jsonWords.find? fun word => word.1.toList.isPrefixOf text with
    | some word => (.scalar word.2, word.1.length)
    | none =>
      match jsonNumber? text with
      | some (value, length) => (.scalar value, length)
      | none => (.stray, 0)

/-- The tokens of a text with their offsets, up to the end or the first that nothing can follow. The
count tells how many of the characters still belong to the token before. -/
def jsonTokens (offset counted : Nat) : List Char → List (Nat × JsonToken)
  | [] => [(offset, .finish)]
  | c :: rest =>
    match counted with
    | left + 1 => jsonTokens (offset + 1) left rest
    | 0 =>
      if isJsonBlank c then jsonTokens (offset + 1) 0 rest
      else
        match jsonToken offset (c :: rest) with
        | (token, 0) => [(offset, token)]
        | (token, left + 1) => (offset, token) :: jsonTokens (offset + 1) left rest

end ScopedStyle
