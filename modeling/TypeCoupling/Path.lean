import TypeCoupling.Language
import TypeCoupling.Text.Split

/-!
# Paths

A path is text with `/` between its parts. Empty parts and parts `.` say nothing, except `.` at
the start of a relative path; `..` and names are components.
-/

namespace TypeCoupling.Path

/-- What a path goes through, in the order in which paths are sorted. -/
inductive Component where
  | root
  | here
  | up
  | name (text : String)
  deriving DecidableEq, Repr, Ord

def pieces (path : String) : List String := Text.split "/" path

def isVoid (piece : String) : Bool := piece == "" || piece == "."

def body (pieces : List String) : List Component :=
  (pieces.filter (!isVoid ·)).map fun p => if p == ".." then .up else .name p

/-- The component at the very start, if there is one, and the pieces after it. -/
def start (pieces : List String) : Option Component × List String :=
  match pieces with
  | "" :: p :: ps => (some .root, p :: ps)
  | "." :: ps => (some .here, ps)
  | ps => (none, ps)

def components (path : String) : List Component :=
  let (first, rest) := start (pieces path)
  first.toList ++ body rest

/-- Drops the pieces of the first `n` components of a body. -/
def dropComponents : Nat → List String → List String
  | 0, ps => ps
  | _, [] => []
  | n + 1, p :: ps => if isVoid p then dropComponents (n + 1) ps else dropComponents n ps

def dropVoidEnd (ps : List String) : List String := (ps.reverse.dropWhile isVoid).reverse

/-- What follows the components of `root` in `path`, written as in `path`. -/
def below? (root path : String) : Option String :=
  if (components root).isPrefixOf (components path) then
    let (first, rest) := start (pieces path)
    match components root with
    | [] =>
      -- Nothing is cut at the start, only void pieces at the end.
      match first with
      | some .root => some ("/" ++ Text.join "/" (dropVoidEnd rest))
      | some _ => some (Text.join "/" ("." :: dropVoidEnd rest))
      | none => some (Text.join "/" (dropVoidEnd rest))
    | cs =>
      let taken := cs.length - first.toList.length
      some (Text.join "/" (dropVoidEnd ((dropComponents taken rest).dropWhile isVoid)))
  else none

def fileName? (path : String) : Option String :=
  match (components path).getLast? with
  | some (.name n) => some n
  | _ => none

/-- What follows the last dot of a file name. A dot at the start of a name that holds no other
does not count. -/
def extension? (path : String) : Option String := do
  let name ← fileName? path
  let parts := Text.split "." name
  if parts.length < 2 || parts.dropLast == [""] then none else parts.getLast?

def language? (path : String) : Option Language :=
  (extension? path).bind Language.ofExtension?

/-- The path that a report shows: as it is, or without the root, or as the bare file name if it is
not below the root. Backslashes become slashes. -/
def display (path root : String) (relative : Bool) : String :=
  let shown :=
    if relative then
      match below? root path with
      | some rest => if rest.isEmpty then (fileName? path).getD path else rest
      | none => (fileName? path).getD path
    else path
  String.ofList (shown.toList.map fun c => if c == '\\' then '/' else c)

def append (path rest : String) : String :=
  if path.toList.getLast? == some '/' then path ++ rest else path ++ "/" ++ rest

end TypeCoupling.Path
