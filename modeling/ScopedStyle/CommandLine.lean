import ScopedStyle.CommandArguments
import ScopedStyle.ControlSequence
import ScopedStyle.JsonDocument
import ScopedStyle.Override

/-! What the commands write, run by any host. Either all rules of the style are shown on the output,
or nothing is and one error is shown on the error output; the log is written as it is. -/
namespace ScopedStyle

/-- The parts of a path between its slashes. -/
def pathParts (current : List Char) : List Char → List (List Char)
  | [] => [current]
  | c :: rest => if c = '/' then current :: pathParts [] rest else pathParts (current ++ [c]) rest

/-- The parts of a path that lead on: an empty part and a dot stay where they are. -/
def leadingParts (path : String) : List (List Char) :=
  (pathParts [] path.toList).filter fun part => part != [] && part != ['.']

/-- A path without the parts that lead nowhere. -/
def normalizedPath (path : String) : String :=
  let relative := String.intercalate "/" ((leadingParts path).map String.ofList)
  if path.toList.head? == some '/' then "/" ++ relative else relative

/-- Whether a path can only be that of a directory. -/
def namesDirectory (path : String) : Bool :=
  match (pathParts [] path.toList).getLast? with
  | some last => last == [] || last == ['.'] || last == ['.', '.']
  | none => true

/-- The name of a file without its directories. -/
def fileName (path : String) : String :=
  String.ofList ((leadingParts path).getLastD [])

/-- A text in which every line ends in a line feed alone. -/
def withLineFeeds : List Char → List Char
  | [] => []
  | '\r' :: '\n' :: rest => '\n' :: withLineFeeds rest
  | '\r' :: rest => '\n' :: withLineFeeds rest
  | c :: rest => c :: withLineFeeds rest

/-- A file that has been named: its path as it was given, and what it holds. -/
structure SpecFile where
  path : String
  contents : String

/-- The spec in a file, or a message. -/
def SpecFile.spec (file : SpecFile) : Except String Value :=
  let text := withLineFeeds file.contents.toList
  match readJson text with
  | .ok value => .ok value
  | .error fault =>
    .error (fileName file.path ++ " is not valid JSON: " ++ fault.message text)

/-- Why a command makes no style. -/
inductive Failure where
  /-- For a reason that it reports. -/
  | reported (message : String)
  /-- Because of an error that it does not catch. -/
  | uncaught (fault : Fault)

/-- Only the compiler's own errors are caught, and reported by their messages. -/
def Failure.ofFault (fault : Fault) : Failure :=
  if fault.isOwn then .reported fault.message else .uncaught fault

/-- What is done about some files: messages for the log, and a style unless something fails. -/
structure Report where
  log : List String
  result : Except Failure Style

/-- The message that a style has been compiled. -/
def compiledMessage (style : Style) : String :=
  "Compiled style " ++ style.name ++ ": " ++ style.rules.length.repr ++ " rule(s)"

/-- The message that a patch has been merged. -/
def overridingMessage (baseName patch : Value) : String :=
  "Overriding style " ++ baseName.literal ++ " with keys "
    ++ (Value.list ((patch.entries?.getD []).map (·.1))).literal

/-- The messages that show a style: its rules, and the class attribute for some variants behind an empty
message if there are any. -/
def Style.messages (style : Style) (variants : List String) : List String :=
  let flags := variants.map fun variant => (Value.text variant, Value.bool true)
  style.rules ++ if variants.isEmpty then [] else ["", "class: " ++ style.classAttribute flags]

namespace Report

/-- Nothing done, for a reason. -/
def refused (message : String) : Report := ⟨[], .error (.reported message)⟩

/-- What a compilation comes to, after messages for the log. -/
def ofCompilation (log : List String) (result : Except Fault Style) : Report :=
  match result with
  | .ok style => ⟨log ++ [compiledMessage style], .ok style⟩
  | .error fault => ⟨log, .error (.ofFault fault)⟩

/-- Compiling a spec. -/
def compile (baseName : String) (spec : Value) : Report :=
  ofCompilation [] (({} : Conventions).compile .fresh spec (.text baseName)).1

/-- Compiling a spec with a patch. -/
def override (baseName : String) (base patch : Value) : Report :=
  match (OverrideBase.spec base).merged patch (.text baseName) with
  | .error fault => ⟨[], .error (.ofFault fault)⟩
  | .ok (merged, name) =>
    ofCompilation [overridingMessage name patch]
      (({} : Conventions).compileSpec .fresh merged name).1

/-- Compiling the spec in a file. -/
def ofFile (baseName : String) (file : SpecFile) : Report :=
  match file.spec with
  | .error message => refused message
  | .ok spec => compile baseName spec

/-- Compiling the spec in a file with the patch in another, the base being read first. -/
def ofFiles (baseName : String) (baseFile patchFile : SpecFile) : Report :=
  match baseFile.spec with
  | .error message => refused message
  | .ok base =>
    match patchFile.spec with
    | .error message => refused message
    | .ok patch => override baseName base patch

/-- The outcome of an invocation. Of an error that is not caught only the message is told of what is
then written. -/
def outcome (shown : String → String) (verbose : Bool) (variants : List String) (report : Report) :
    Outcome :=
  let logged := report.log.map fun message => programName ++ ": " ++ message
  let log := if verbose then lines logged else ""
  match report.result with
  | .ok style => .finished 0 (lines ((style.messages variants).map shown)) log
  | .error (.reported message) => .finished 1 "" (log ++ line (shown ("Error: " ++ message)))
  | .error (.uncaught fault) => .finished 1 "" (log ++ line fault.message)

end Report

/-- The files of a request, as they are named. -/
def Request.files : Request → List String
  | .compile spec _ => [spec]
  | .override base patch _ => [base, patch]

/-- The file with a path, if there is one among those that can be read. -/
def namedFile? (contents? : String → Option String) (path : String) : Option SpecFile :=
  if namesDirectory path then none
  else (contents? (normalizedPath path)).map fun contents => ⟨path, contents⟩

/-- What an invocation comes to, given what the files hold that exist. -/
def Invocation.run (invocation : Invocation) (shown : String → String)
    (contents? : String → Option String) : Outcome :=
  match invocation.request with
  | .compile spec options =>
    match namedFile? contents? spec with
    | some file =>
      (Report.ofFile options.baseName file).outcome shown invocation.verbose options.variants
    | none => .misuse
  | .override base patch options =>
    match namedFile? contents? base, namedFile? contents? patch with
    | some baseFile, some patchFile =>
      (Report.ofFiles options.baseName baseFile patchFile).outcome shown invocation.verbose
        options.variants
    | _, _ => .misuse

namespace CommandHost

/-- What the program comes to for some arguments, given what the files hold that exist. -/
def run (host : CommandHost) (arguments : List String) (contents? : String → Option String) :
    Outcome :=
  match host.asked arguments with
  | .ok invocation => invocation.run host.shown contents?
  | .error outcome => outcome

/-- A host for outputs that are no terminal, which leaves out all control sequences. -/
def standard : CommandHost := ⟨argumentsAsked, plainText⟩

end CommandHost

/-- What the program comes to with the host that is there. -/
def runArguments (arguments : List String) (contents? : String → Option String) : Outcome :=
  CommandHost.standard.run arguments contents?

end ScopedStyle
