import TypeCoupling.Analysis
import TypeCoupling.CommandLine
import TypeCoupling.Encoding
import TypeCoupling.Source.Reader

/-!
# Commands

What the program can be asked to do, how that is written on a command line, and what comes of it. A
command line that makes no sense ends with code 2, any other failure with code 1.
-/

namespace TypeCoupling

structure ResolveOptions where
  sources : String
  /-- The file that the report goes to instead of the output. -/
  output : Option String
  /-- Exclusions besides those of the configuration. -/
  exclusions : List String
  relativePaths : Bool
  /-- The configuration file instead of the default one. -/
  config : Option String
  deriving DecidableEq, Repr

inductive Command where
  | resolve (options : ResolveOptions)
  | languages
  | init (path : String) (force : Bool)
  deriving DecidableEq, Repr

inductive Request where
  | version
  | help
  | run (command : Command)
  deriving DecidableEq, Repr

namespace Request

def versionText : String := "couplet 0.0.1\n"

def helpText : String :=
  "Usage: couplet [-v] <command>\n\n" ++
  "Commands:\n" ++
  "  resolve <sources> [-o <file>] [-e <patterns>] [--relative-paths] [-c <file>]\n" ++
  "  languages\n" ++
  "  init [-p <file>] [-f]\n"

end Request

namespace Command

/-! ### Reading -/

def verboseOption : CommandOption := ⟨"verbose", some 'v', false, false⟩

def helpOption : CommandOption := ⟨"help", some 'h', false, false⟩

def path? (text : String) : Option String := if text.isEmpty then none else some text

/-- The path of an option that may be missing. -/
def optionalPath? (a : Arguments) (long : String) : Option (Option String) :=
  match a.values long with
  | [] => some none
  | text :: _ => (path? text).map some

def resolveOptions : List CommandOption :=
  [verboseOption, helpOption, ⟨"output", some 'o', true, false⟩,
    ⟨"exclusions", some 'e', true, true⟩, ⟨"relative-paths", none, false, false⟩,
    ⟨"config", some 'c', true, false⟩]

def readResolve? (a : Arguments) : Option Command := do
  let output ← optionalPath? a "output"
  let config ← optionalPath? a "config"
  match a.positional with
  | [sources] =>
    some (.resolve {
      sources := ← path? sources
      output
      exclusions := (a.values "exclusions").flatMap (Text.split ",")
      relativePaths := a.has "relative-paths"
      config })
  | _ => none

def readLanguages? (a : Arguments) : Option Command :=
  if a.positional.isEmpty then some .languages else none

def initOptions : List CommandOption :=
  [verboseOption, helpOption, ⟨"path", some 'p', true, false⟩, ⟨"force", some 'f', false, false⟩]

def readInit? (a : Arguments) : Option Command := do
  let path ← optionalPath? a "path"
  if a.positional.isEmpty then some (.init (path.getD Config.defaultPath) (a.has "force"))
  else none

/-- Reads the arguments of a command, or the wish for help in them. -/
def readWith? (known : List CommandOption) (read : Arguments → Option Command)
    (arguments : List String) : Option Request := do
  let a ← Arguments.read? known arguments .empty
  if a.has "help" then some .help else (read a).map .run

/-- Reads a command by its name and arguments. -/
def ofName? (name : String) (arguments : List String) : Option Request :=
  if name == "resolve" then readWith? resolveOptions readResolve? arguments
  else if name == "languages" then readWith? [verboseOption, helpOption] readLanguages? arguments
  else if name == "init" then readWith? initOptions readInit? arguments
  else if name == "help" then some .help
  else none

/-- Reads joined letters in front of a command: whether it is verbose by then, or the request that
they make. -/
def readLetters? : (verbose : Bool) → List Char → Option (Bool ⊕ Request)
  | verbose, [] => some (.inl verbose)
  | verbose, c :: s =>
    if c == 'V' then some (.inr .version)
    else if c == 'h' then some (.inr .help)
    else if c == 'v' && !verbose then readLetters? true s
    else none

end Command

namespace Request

open Command in
/-- Reads a command line; none if it makes no sense. -/
def parse? : (verbose : Bool) → List String → Option Request
  | _, [] => none
  | verbose, argument :: rest =>
    if argument == "--version" then some .version
    else if argument == "--help" then some .help
    else if argument == "--verbose" then if verbose then none else parse? true rest
    else
      match argument.toList with
      | '-' :: '-' :: _ => none
      | '-' :: c :: s =>
        match readLetters? verbose (c :: s) with
        | none => none
        | some (.inr request) => some request
        | some (.inl verbose) => parse? verbose rest
      | _ => ofName? argument rest

end Request

/-! ### Running -/

inductive Failure where
  | config (e : ConfigError)
  | sources (e : Error)
  /-- The report cannot be written. -/
  | output (path : String)
  deriving DecidableEq, Repr

namespace Failure

def message : Failure → String
  | config e => e.message
  | sources e => e.message
  | output path => "cannot write " ++ path

end Failure

/-- What a command leaves behind. -/
structure Outcome where
  output : String
  tree : FileTree
  /-- The files that were written. -/
  written : List String

namespace Command

/-- The text with blanks after it up to a width. -/
def padEnd (width : Nat) (s : String) : String :=
  s ++ String.ofList (List.replicate (width - s.length) ' ')

def languageLine (p : Profile) : String :=
  padEnd 8 p.language.name ++ " " ++ padEnd 24 (Text.join ", " p.language.extensions) ++
    " namespace '" ++ p.delimiter ++ "' call '" ++ p.callDelimiter ++ "'\n"

/-- The configuration of a resolution: that of the file and of the options. -/
def settings (t : FileTree) (o : ResolveOptions) : Except ConfigError Config := do
  let c := (← Config.load t (o.config.getD Config.defaultPath)).getD Config.default
  return { c with
    exclusions := c.exclusions ++ o.exclusions
    relativePaths := c.relativePaths || o.relativePaths }

def runResolve (t : FileTree) (o : ResolveOptions) : Except Failure Outcome := do
  let c ← (settings t o).mapError .config
  let report ← (analyse Source.read t o.sources c).mapError .sources
  let text := report.toJson.pretty
  match o.output with
  | none => return ⟨text ++ "\n", t, []⟩
  | some path =>
    match t.write? path text with
    | none => .error (.output path)
    | some t => return ⟨"", t, [path]⟩

def run (t : FileTree) : Command → Except Failure Outcome
  | .resolve o => runResolve t o
  | .languages => .ok ⟨String.join (Language.all.map fun l => languageLine l.profile), t, []⟩
  | .init path force =>
    match Config.write t path .default force with
    | .error e => .error (.config e)
    | .ok t => .ok ⟨"Wrote " ++ path ++ "\n", t, [path]⟩

/-- The paths whose files or directories a command looks at. -/
def paths : Command → List String
  | .resolve o => [o.config.getD Config.defaultPath] ++ o.output.toList
  | .languages => []
  | .init path _ => [path]

def sources? : Command → Option String
  | .resolve o => some o.sources
  | _ => none

end Command

/-- How a run of the program ends. -/
structure Execution where
  code : Nat
  outcome : Outcome
  /-- What went wrong, if anything did. -/
  complaint : Option String

namespace Execution

def ok (o : Outcome) : Execution := ⟨0, o, none⟩

def failed (code : Nat) (t : FileTree) (complaint : String) : Execution :=
  ⟨code, ⟨"", t, []⟩, some complaint⟩

end Execution

/-- Runs the program with the arguments of a command line. -/
def execute (t : FileTree) (arguments : List String) : Execution :=
  match Request.parse? false arguments with
  | none => .failed 2 t Request.helpText
  | some .version => .ok ⟨Request.versionText, t, []⟩
  | some .help => .ok ⟨Request.helpText, t, []⟩
  | some (.run command) =>
    match command.run t with
    | .ok outcome => .ok outcome
    | .error e => .failed 1 t e.message

end TypeCoupling
