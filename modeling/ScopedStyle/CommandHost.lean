/-! The host of the commands: it reads what the arguments ask for, answers by itself what is no matter
of the commands, and shows their messages. The program is written for any host. What it relies on is
what is documented of hosts whose output is no terminal: messages are shown as they are, but without
the codes that would change their colour or style. -/
namespace ScopedStyle

/-- The name that the program gives itself. -/
def programName : String := "domstylesheet"

/-- The version of the program. -/
def programVersion : String := "0.1.0"

/-- A line of text. -/
def line (text : String) : String :=
  text ++ "\n"

/-- Lines of text. -/
def lines (texts : List String) : String :=
  String.join (texts.map line)

/-- The options of a command. -/
structure CommandOptions where
  baseName : String := "style"
  variants : List String := []
deriving DecidableEq

/-- What a command is asked to do. -/
inductive Request where
  | compile (spec : String) (options : CommandOptions)
  | override (base patch : String) (options : CommandOptions)
deriving DecidableEq

/-- A request and whether it is to be done with a log. -/
structure Invocation where
  verbose : Bool
  request : Request
deriving DecidableEq

/-- How an invocation ends. -/
inductive Outcome where
  /-- The arguments make no sense, or a file does not exist. -/
  | misuse
  | finished (exitCode : Nat) (output errors : String)

/-- A host of the commands. -/
structure CommandHost where
  /-- The invocation that the arguments ask for, or the outcome where no command is asked: if the
  arguments make no sense, or ask for the version or for help. -/
  asked : List String → Except Outcome Invocation
  /-- A message as it is shown, but for the line feed behind it. -/
  shown : String → String

/-- The character that codes for a terminal begin with. -/
def escape : Char := '\x1b'

end ScopedStyle
