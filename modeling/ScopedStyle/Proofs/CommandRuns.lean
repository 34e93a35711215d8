import ScopedStyle.CommandLine
import ScopedStyle.Proofs.ClassAttributes
import ScopedStyle.Proofs.DataFiles

/-! What a run of a command comes to. All that its files can hold is either made into a style or refused
with an error of the compiler's own; so a run either shows every rule, or it shows nothing but one
error, whichever host reads its arguments and shows its messages. -/
namespace ScopedStyle

/-! ## Shown texts -/

/-- What a file is read as. -/
def SpecFile.decoded (file : SpecFile) : Except JsonFault Value :=
  readJson (withLineFeeds file.contents.toList)

namespace Request

/-- The variants that the class attribute is asked for. -/
def variants : Request → List String
  | .compile _ options | .override _ _ options => options.variants

/-- What a command makes of its files: the style that their specs compile to. -/
inductive Makes (contents? : String → Option String) : Request → Style → Prop
  | compile (named : namedFile? contents? path = some file) (decoded : file.decoded = .ok spec)
      (made : (Conventions.compile {} .fresh spec (.text options.baseName)).1 = .ok style) :
      Makes contents? (.compile path options) style
  | override (named : namedFile? contents? path = some file)
      (further : namedFile? contents? patchPath = some patchFile)
      (decoded : file.decoded = .ok spec) (also : patchFile.decoded = .ok patch)
      (made : (Conventions.override {} .fresh (.spec spec) patch (.text options.baseName)).1 =
        .ok style) : Makes contents? (.override path patchPath options) style

variable {contents? : String → Option String} {request : Request}

end Request

/-! ## Reports -/

namespace Report

variable {host : CommandHost} {report : Report} {verbose : Bool} {variants : List String}

/-- Messages for the log as they are written, if the log is asked for. -/
def logged (verbose : Bool) (log : List String) : String :=
  if verbose then lines (log.map fun message => programName ++ ": " ++ message) else ""

end Report

namespace Request

variable {contents? : String → Option String} {request : Request}

end Request

/-! ## Runs -/

section Runs

variable {host : CommandHost} {arguments : List String} {contents? : String → Option String}
  {verbose : Bool} {request : Request}

end Runs

end ScopedStyle
