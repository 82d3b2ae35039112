import TypeCoupling.FileTree
import TypeCoupling.Glob
import TypeCoupling.Text.Blank

/-!
# Ignore rules

A rule is one line with a glob. Of the rules that fit a path the last one decides, and it either
ignores the path or keeps it.
-/

namespace TypeCoupling

inductive Verdict where
  | ignored
  | kept
  deriving DecidableEq, Repr

structure IgnoreRule where
  glob : Glob
  verdict : Verdict
  directoriesOnly : Bool
  deriving DecidableEq, Repr

namespace IgnoreRule

def trimLine (line : String) : String :=
  if (Text.dropEnd? "\\ " line).isSome then line else Text.trimEnd line

/-- The verdict and whether the glob is anchored, and the rest of the line. -/
def readMarks (line : String) : Verdict × Bool × String :=
  if (Text.dropStart? "\\!" line).isSome || (Text.dropStart? "\\#" line).isSome then
    (.ignored, false, String.ofList line.toList.tail)
  else
    let (verdict, line) :=
      match Text.dropStart? "!" line with
      | some line => (Verdict.kept, line)
      | none => (.ignored, line)
    match Text.dropStart? "/" line with
    | some line => (verdict, true, line)
    | none => (verdict, false, line)

/-- Whether a slash at the end restricts the rule to directories, and the line without it. -/
def readEnd (line : String) : Bool × String :=
  match Text.dropEnd? "/" line with
  | some line => (true, (Text.dropEnd? "\\" line).getD line)
  | none => (false, line)

/-- The glob for whole paths: a bare name may stand in any directory, and two stars at the end
stand for what is in a directory but not for the directory. -/
def wholePath (anchored : Bool) (glob : String) : String :=
  let glob :=
    if !anchored && !glob.toList.contains '/' && glob != "**" then "**/" ++ glob else glob
  if (Text.dropEnd? "/**" glob).isSome then glob ++ "/*" else glob

/-- The rule of a line; none for comments, blank lines and malformed globs. -/
def ofLine? (line : String) : Option IgnoreRule := do
  guard (Text.dropStart? "#" line).isNone
  let line := trimLine line
  guard !line.isEmpty
  let (verdict, anchored, line) := readMarks line
  let (directoriesOnly, line) := readEnd line
  let glob ← Glob.parse? (wholePath anchored line)
  some { glob, verdict, directoriesOnly }

def fits (r : IgnoreRule) (path : String) (isDirectory : Bool) : Bool :=
  (!r.directoriesOnly || isDirectory) && r.glob.contains path

def decide? (rules : List IgnoreRule) (path : String) (isDirectory : Bool) : Option Verdict :=
  (rules.reverse.find? (·.fits path isDirectory)).map (·.verdict)

/-! ### Rule files -/

def linesOf (bytes : List UInt8) : List (List UInt8) :=
  match bytes with
  | [] => [[]]
  | b :: bs =>
    match b == 10, linesOf bs with
    | true, ls => [] :: ls
    | false, [] => [[b]]
    | false, l :: ls =>
      -- A carriage return belongs to the line break after it.
      if b == 13 && l.isEmpty && !ls.isEmpty then l :: ls else (b :: l) :: ls

/-- The lines up to the first one that is not UTF-8. -/
def decodeLines : List (List UInt8) → List String
  | [] => []
  | l :: ls =>
    match String.fromUTF8? ⟨l.toArray⟩ with
    | some line => line :: decodeLines ls
    | none => []

/-- The rules of a file. Byte order marks at its start do not count. -/
def ofFile (content : ByteArray) : List IgnoreRule :=
  match decodeLines (linesOf content.data.toList) with
  | [] => []
  | line :: lines => (Text.dropStartCopies "\ufeff" line :: lines).filterMap ofLine?

def ofPlace (t : FileTree) (place : Place) : List IgnoreRule :=
  ((t.contentAt? place).map ofFile).getD []

end IgnoreRule

/-! ### The filter of a sources root -/

/-- The rules of a sources root: those of its own rule files, of version control, and the
exclusions. -/
structure IgnoreFilter where
  root : String
  rules : List IgnoreRule

namespace IgnoreFilter

def make (t : FileTree) (root : String) (exclusions : List String) : IgnoreFilter where
  root := (Text.dropStart? "./" root).getD root
  rules :=
    [".gitignore", ".ignore"].flatMap (fun name =>
      ((t.read? (Path.append root name)).map IgnoreRule.ofFile).getD []) ++
    ([".git/", ".svn/", ".hg/"] ++ exclusions).filterMap IgnoreRule.ofLine?

/-- A path as the rules see it: without the text of the root at its start. A path without a slash
stays as it is. -/
def relative (f : IgnoreFilter) (path : String) : String :=
  let path := (Text.dropStart? "./" path).getD path
  if Path.components f.root != [.here] && path.toList.contains '/' then
    let path := (Text.dropStart? f.root path).getD path
    (Text.dropStart? "/" path).getD path
  else path

def ignores (f : IgnoreFilter) (path : String) (isDirectory : Bool) : Bool :=
  IgnoreRule.decide? f.rules (f.relative path) isDirectory == some .ignored

end IgnoreFilter

end TypeCoupling
