import ScopedStyle.CommandHost

/-! Control sequences, which tell a terminal to change a colour or to move, and which mean nothing
anywhere else. A sequence is an escape character and an opening bracket, then any parameters, and
last a letter. Leaving all of them out is one way to show messages. -/
namespace ScopedStyle

/-- Whether a character can stand in a control sequence after what has been read of it. -/
def continuesSequence : List Char → Char → Bool
  | [], _ => false
  | [_], c => c == '['
  | _ :: _ :: _, c => c.isDigit || c == ';' || c == '?'

/-- Whether a character ends a control sequence of which the bracket has been read. -/
def endsSequence : List Char → Char → Bool
  | _ :: _ :: _, c => c.isAlpha
  | _, _ => false

/-- A text without its control sequences, given what has been read of one that is still open. What
does not come to a whole sequence is kept, and no sequence is looked for in what is left. -/
def withoutSequences (opened : List Char) : List Char → List Char
  | [] => opened
  | c :: rest =>
    if c == escape then opened ++ withoutSequences [c] rest
    else if continuesSequence opened c then withoutSequences (opened ++ [c]) rest
    else if endsSequence opened c then withoutSequences [] rest
    else opened ++ c :: withoutSequences [] rest

/-- A text without control sequences. -/
def plainText (text : String) : String :=
  String.ofList (withoutSequences [] text.toList)

end ScopedStyle
