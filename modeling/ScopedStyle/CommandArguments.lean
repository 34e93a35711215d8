import ScopedStyle.CommandHost

/-! One way to read the arguments of the command line. Options of the whole program come before the name
of a command, and options of a command anywhere among its files. Two hyphens alone end the options. What
fits no rule is refused as a whole, without telling the rule. -/
namespace ScopedStyle

/-- Whether an argument is an option by its form: a hyphen with something after it. -/
def looksLikeOption (argument : String) : Bool :=
  match argument.toList with
  | '-' :: _ :: _ => true
  | _ => false

/-! ## Options of the program -/

/-- What can be asked for instead of a command. -/
inductive Information where
  | version
  | help

/-- The options of the whole program, none of which takes a value. -/
inductive GlobalOption where
  | verbose
  | information (wanted : Information)

/-- The global option that an argument stands for. The short form may be repeated in an argument. -/
def globalOption? (argument : String) : Option GlobalOption :=
  if argument == "--verbose" then some .verbose
  else if argument == "--version" then some (.information .version)
  else if argument == "--help" then some (.information .help)
  else
    match argument.toList with
    | '-' :: letters => if letters.all (· == 'v') then some .verbose else none
    | _ => none

/-- The global options at the start of some arguments: whether a log is wanted, which information is
asked for first, and the arguments from the first on that is no option. -/
def globalOptions (verbose : Bool) (wanted : Option Information) :
    List String → Option (Bool × Option Information × List String)
  | [] => some (verbose, wanted, [])
  | argument :: rest =>
    if argument == "--" then some (verbose, wanted, rest)
    else if looksLikeOption argument then
      match globalOption? argument with
      | some .verbose => globalOptions true wanted rest
      | some (.information asked) => globalOptions verbose (wanted.or (some asked)) rest
      | none => none
    else some (verbose, wanted, argument :: rest)

/-! ## Options of a command -/

/-- The options of a command that take a value. -/
inductive Setting where
  | baseName
  | variant

/-- The setting with a long name. -/
def longSetting? (name : List Char) : Option Setting :=
  if name == "--name".toList then some .baseName
  else if name == "--variant".toList then some .variant
  else none

/-- The setting that an argument stands for, with its value if that is part of the argument: after
an equals sign in the long form, and directly after the letter in the short form. -/
def setting? (argument : String) : Option (Setting × Option String) :=
  match argument.toList with
  | '-' :: '-' :: _ =>
    let (name, value) := argument.toList.span (· != '=')
    (longSetting? name).map fun setting =>
      (setting, if value.isEmpty then none else some (String.ofList (value.drop 1)))
  | '-' :: 'n' :: value =>
    some (.baseName, if value.isEmpty then none else some (String.ofList value))
  | _ => none

/-- The options with one of them set. The last base name holds, and variants add up. -/
def CommandOptions.set (options : CommandOptions) (setting : Setting) (value : String) :
    CommandOptions :=
  match setting with
  | .baseName => { options with baseName := value }
  | .variant => { options with variants := options.variants ++ [value] }

/-- What has been read of the arguments of a command. -/
structure CommandArguments where
  options : CommandOptions := {}
  files : List String := []
  asksForHelp : Bool := false

/-- What has been read with the rest of the arguments. A setting without a value takes the next
argument, whatever that looks like. -/
def CommandArguments.reading (read : CommandArguments) : List String → Option CommandArguments
  | [] => some read
  | argument :: rest =>
    if argument == "--" then some { read with files := read.files ++ rest }
    else if argument == "--help" then { read with asksForHelp := true }.reading rest
    else if looksLikeOption argument then
      match setting? argument with
      | some (setting, some value) =>
        { read with options := read.options.set setting value }.reading rest
      | some (setting, none) =>
        match rest with
        | value :: rest => { read with options := read.options.set setting value }.reading rest
        | [] => none
      | none => none
    else { read with files := read.files ++ [argument] }.reading rest

/-! ## Commands -/

/-- The commands with the names of their files, and what they do. -/
def commandSummaries : List (String × String × String) :=
  [("compile", "SPECFILE", "Compile SPECFILE and print its CSS rules, one per line."),
    ("override", "BASEFILE PATCHFILE",
      "Deep-merge PATCHFILE onto BASEFILE and print the compiled rules.")]

/-- How the program is called. -/
def programHelp : String :=
  lines ("Usage: domstylesheet [OPTIONS] COMMAND [ARGS]..." :: "" :: "Commands:" ::
    commandSummaries.map fun command => "  " ++ command.1 ++ "  " ++ command.2.2)

/-- How a command is called. -/
def commandHelp (name files summary : String) : String :=
  lines ["Usage: domstylesheet " ++ name ++ " [OPTIONS] " ++ files, "", "  " ++ summary]

/-- The request that a command with its options and files is. -/
def commandRequest? (name : String) (read : CommandArguments) : Option Request :=
  match name, read.files with
  | "compile", [spec] => some (.compile spec read.options)
  | "override", [base, patch] => some (.override base patch read.options)
  | _, _ => none

/-- What a command with its arguments asks for. Help is given before any file is missed. -/
def commandAsked (verbose : Bool) (name : String) (arguments : List String) :
    Except Outcome Invocation :=
  match commandSummaries.lookup name, CommandArguments.reading {} arguments with
  | some (files, summary), some read =>
    if read.asksForHelp then .error (.finished 0 (commandHelp name files summary) "")
    else
      match commandRequest? name read with
      | some request => .ok ⟨verbose, request⟩
      | none => .error .misuse
  | _, _ => .error .misuse

/-- What the arguments ask for. Asking for the version or for help overrules every command. -/
def argumentsAsked (arguments : List String) : Except Outcome Invocation :=
  match globalOptions false none arguments with
  | some (_, some .version, _) =>
    .error (.finished 0 (line (programName ++ ", version " ++ programVersion)) "")
  | some (_, some .help, _) => .error (.finished 0 programHelp "")
  | some (verbose, none, name :: rest) => commandAsked verbose name rest
  | _ => .error .misuse

end ScopedStyle
