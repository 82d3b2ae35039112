import TypeCoupling.FileTree
import TypeCoupling.Toml.Reader

/-!
# Configuration

What a run can be told by a file: which files to leave out, how to show paths, and how far to look.
The file is TOML; unknown keys do not matter, and missing ones leave the default.
-/

namespace TypeCoupling

structure Config where
  /-- Ignore rules besides those in the sources. -/
  exclusions : List String := ["node_modules", ".idea", "dist", "build", "out", "vendor"]
  /-- Whether paths are shown relative to the sources root. -/
  relativePaths : Bool := false
  /-- How many namespaces around a type are searched for a name; none for all of them. -/
  maxAncestorDepth : Option Nat := none
  /-- How many threads may work, zero for one per processor. -/
  threads : Nat := 0
  deriving DecidableEq, Repr

inductive ConfigError where
  /-- There is a file already that must not be replaced. -/
  | taken (path : String)
  /-- The file cannot be read or written, or is not text. -/
  | inaccessible
  /-- The file is no valid configuration, or the configuration cannot be written. -/
  | invalid
  deriving DecidableEq, Repr

namespace Config

def default : Config := {}

/-- Where a configuration is looked for. -/
def defaultPath : String := "couplet.toml"

/-! ### Reading -/

def text? : Toml.Value → Option String
  | .text s => some s
  | _ => none

def texts? : Toml.Entry → Option (List String)
  | .value (.array vs) => vs.mapM text?
  | _ => none

def boolean? : Toml.Entry → Option Bool
  | .value (.boolean b) => some b
  | _ => none

def count? : Toml.Entry → Option Nat
  | .value (.integer (.ofNat n)) => some n
  | _ => none

/-- The entry under a name, or the default if there is none; none if it is of the wrong kind. -/
def field? {α : Type} (d : Toml.Document) (name : String) (read : Toml.Entry → Option α)
    (default : α) : Option α :=
  match d.entry? name with
  | none => some default
  | some e => read e

def ofDocument? (d : Toml.Document) : Option Config := do
  let exclusions ← field? d "exclusions" texts? default.exclusions
  let relativePaths ← field? d "relative_paths" boolean? default.relativePaths
  let maxAncestorDepth ← field? d "max_ancestor_depth" (fun e => (count? e).map some) none
  let threads ← field? d "threads" count? default.threads
  some { exclusions, relativePaths, maxAncestorDepth, threads }

def parse? (text : String) : Option Config := (Toml.parse? text).bind ofDocument?

/-- The configuration in a file; none if there is no such file. -/
def load (t : FileTree) (path : String) : Except ConfigError (Option Config) :=
  if !t.contains path then .ok none
  else
    match t.readText? path with
    | none => .error .inaccessible
    | some text =>
      match parse? text with
      | none => .error .invalid
      | some c => .ok (some c)

/-! ### Writing -/

def quoted (s : String) : String := String.ofList (Toml.writeQuoted s.toList)

/-- Texts as an array: up to one on the same line, more on lines of their own. -/
def arrayText : List String → String
  | [] => "[]"
  | [s] => "[" ++ quoted s ++ "]"
  | ss => "[\n" ++ String.join (ss.map fun s => "    " ++ quoted s ++ ",\n") ++ "]"

/-- The configuration as a document; none if a number is too large for one. -/
def toText? (c : Config) : Option String :=
  if Toml.maxInteger < c.threads || c.maxAncestorDepth.any (Toml.maxInteger < ·) then none
  else some <|
    "exclusions = " ++ arrayText c.exclusions ++ "\n" ++
    "relative_paths = " ++ (if c.relativePaths then "true" else "false") ++ "\n" ++
    (match c.maxAncestorDepth with
    | none => ""
    | some n => "max_ancestor_depth = " ++ Nat.repr n ++ "\n") ++
    "threads = " ++ Nat.repr c.threads ++ "\n"

/-- Writes a configuration to a file, which must not be there yet unless it may be replaced. -/
def write (t : FileTree) (path : String) (c : Config) (force : Bool) :
    Except ConfigError FileTree :=
  if t.contains path && !force then .error (.taken path)
  else
    match c.toText? with
    | none => .error .invalid
    | some text =>
      match t.write? path text with
      | none => .error .inaccessible
      | some t => .ok t

end Config

namespace ConfigError

def message : ConfigError → String
  | taken path => "config already exists at " ++ path ++ " (use --force to overwrite)"
  | inaccessible => "the configuration file cannot be accessed"
  | invalid => "the configuration is not valid"

end ConfigError

end TypeCoupling
