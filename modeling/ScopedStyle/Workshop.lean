import ScopedStyle.Override

/-! A workshop: sources, compilers and styles that are made one after the other and referred to by
number. One source and one compiler are there from the start, and all that name no other share them.
A command that fails leaves everything as it was, but for the number that issuing may have used. -/
namespace ScopedStyle

/-- Which source is meant: the shared one, or one by its number. -/
abbrev SourceRef := Option Nat

/-- A compiler of the workshop: its settings and the source that it takes names from, which was there
when the compiler was added. -/
structure WorkshopCompiler where
  conventions : Conventions
  source : SourceRef

/-- Which compiler is meant: the shared one, or one by its number. -/
abbrev CompilerRef := Option Nat

/-- A style of the workshop and the compiler that made it; a detached style goes back to the shared
compiler. -/
structure WorkshopStyle where
  style : Style
  compiler : CompilerRef

/-- The state of a workshop. -/
structure Workshop where
  shared : NameSource := .fresh
  sources : List NameSource := []
  compilers : List WorkshopCompiler := []
  styles : List WorkshopStyle := []

/-- What can be asked of a workshop. -/
inductive Command where
  | addSource (start : Int)
  | addCompiler (conventions : Conventions) (source : SourceRef)
  | issue (source : SourceRef) (base : String)
  | upcoming (source : SourceRef)
  | compile (compiler : CompilerRef) (spec baseName : Value)
  | overrideStyle (compiler : CompilerRef) (style : Nat) (patch baseName : Value)
  | overrideSpec (compiler : CompilerRef) (base patch baseName : Value)
  /-- Overriding a style with the compiler that made it. -/
  | restyle (style : Nat) (patch baseName : Value)
  | detach (style : Nat)
  | view (style : Nat)
  | variants (style : Nat)
  | sheet (style : Nat)
  | classAttribute (style : Nat) (flags named : Flags)
  | equal (style other : Nat)

/-- What a workshop answers. -/
inductive Answer where
  | number (value : Nat)
  | discriminator (value : Int)
  | text (value : String)
  | style (value : Style)
  | paths (value : List (List String))
  | truth (value : Bool)

namespace Workshop

/-- The source that is meant: what is not there stands for the shared one. -/
def known (workshop : Workshop) (ref : SourceRef) : SourceRef :=
  ref.filter (· < workshop.sources.length)

/-- A source of the workshop. -/
def source (workshop : Workshop) (ref : SourceRef) : NameSource :=
  match ref with
  | none => workshop.shared
  | some number => (workshop.sources[number]?).getD workshop.shared

/-- The workshop with a source replaced. -/
def setSource (workshop : Workshop) (ref : SourceRef) (source : NameSource) : Workshop :=
  match ref with
  | none => { workshop with shared := source }
  | some number =>
    if number < workshop.sources.length then
      { workshop with sources := workshop.sources.set number source }
    else { workshop with shared := source }

/-- The compiler that is meant: what is not there stands for the shared one. -/
def knownCompiler (workshop : Workshop) (ref : CompilerRef) : CompilerRef :=
  ref.filter (· < workshop.compilers.length)

/-- A compiler of the workshop. -/
def compiler (workshop : Workshop) (ref : CompilerRef) : WorkshopCompiler :=
  (ref.bind fun number => workshop.compilers[number]?).getD ⟨{}, none⟩

/-- A style of the workshop. -/
def style (workshop : Workshop) (number : Nat) : Except Fault WorkshopStyle :=
  match workshop.styles[number]? with
  | some held => .ok held
  | none => .error (.unknownNumber number)

/-- Letting a compiler work: its source is kept as it leaves it, and a style that it makes is
added. -/
def make (workshop : Workshop) (ref : CompilerRef)
    (work : Conventions → NameSource → Except Fault Style × NameSource) :
    Except Fault Answer × Workshop :=
  let compiler := workshop.compiler ref
  let (result, source) := work compiler.conventions (workshop.source compiler.source)
  let workshop := workshop.setSource compiler.source source
  match result with
  | .ok style => (.ok (.style style), { workshop with styles := workshop.styles ++ [⟨style, ref⟩] })
  | .error fault => (.error fault, workshop)

/-- Asking something of a style, which changes nothing. -/
def ask (workshop : Workshop) (number : Nat) (question : Style → Answer) :
    Except Fault Answer × Workshop :=
  (workshop.style number |>.map fun held => question held.style, workshop)

/-- Carrying out a command. -/
def run (workshop : Workshop) : Command → Except Fault Answer × Workshop
  | .addSource start =>
    (.ok (.number workshop.sources.length),
      { workshop with sources := workshop.sources ++ [⟨start⟩] })
  | .addCompiler conventions source =>
    (.ok (.number workshop.compilers.length),
      { workshop with compilers := workshop.compilers ++ [⟨conventions, workshop.known source⟩] })
  | .issue ref base =>
    let (name, source) := (workshop.source ref).issue base
    (.ok (.text name), workshop.setSource ref source)
  | .upcoming ref => (.ok (.discriminator (workshop.source ref).next), workshop)
  | .compile ref spec baseName =>
    workshop.make (workshop.knownCompiler ref) fun conventions source => conventions.compile source spec baseName
  | .overrideStyle ref number patch baseName =>
    match workshop.style number with
    | .ok held =>
      workshop.make (workshop.knownCompiler ref) fun conventions source =>
        conventions.override source (.style held.style) patch baseName
    | .error fault => (.error fault, workshop)
  | .overrideSpec ref base patch baseName =>
    workshop.make (workshop.knownCompiler ref) fun conventions source =>
      conventions.override source (.spec base) patch baseName
  | .restyle number patch baseName =>
    match workshop.style number with
    | .ok held =>
      workshop.make held.compiler fun conventions source =>
        conventions.override source (.style held.style) patch baseName
    | .error fault => (.error fault, workshop)
  | .detach number =>
    match workshop.style number with
    | .ok held =>
      (.ok (.style held.style),
        { workshop with styles := workshop.styles ++ [{ held with compiler := none }] })
    | .error fault => (.error fault, workshop)
  | .view number => workshop.ask number .style
  | .variants number => workshop.ask number fun style => .paths style.variants
  | .sheet number => workshop.ask number fun style => .text style.sheet
  | .classAttribute number flags named =>
    workshop.ask number fun style => .text (style.classAttribute (flags.overruledBy named))
  | .equal number other =>
    match workshop.style number, workshop.style other with
    | .ok held, .ok compared => (.ok (.truth (held.style.same compared.style)), workshop)
    | .error fault, _ | _, .error fault => (.error fault, workshop)

end Workshop

end ScopedStyle
