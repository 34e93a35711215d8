import ScopedStyle.CommandLine

/-! The program: reads the files that its arguments name and writes what they come to. -/
namespace ScopedStyle

/-- The contents of a file that can be read. -/
def readable (path : String) : IO (Option String) :=
  tryCatch (some <$> IO.FS.readFile path) fun _ => pure none

/-- The files of an invocation that can be read, with their contents. -/
def readableFiles (asked : Except Outcome Invocation) : IO (List (String × String)) := do
  let paths := (asked.toOption.map fun invocation => invocation.request.files).getD []
  let found ← paths.mapM fun path => do
    let contents ← readable (normalizedPath path)
    pure (contents.map fun contents => (normalizedPath path, contents))
  pure (found.filterMap id)

end ScopedStyle

/-- Runs the command line. -/
def main (arguments : List String) : IO UInt32 := do
  let files ← ScopedStyle.readableFiles (ScopedStyle.CommandHost.standard.asked arguments)
  match ScopedStyle.runArguments arguments fun path => files.lookup path with
  | .misuse =>
    IO.eprint ScopedStyle.programHelp
    pure 2
  | .finished exitCode output errors =>
    IO.print output
    IO.eprint errors
    pure exitCode.toUInt32
