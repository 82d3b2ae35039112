import TypeCoupling.Text.Blank
import TypeCoupling.Text.Split

/-!
# Patterns of a query text

A query text is cut into its top-level patterns. A pattern starts at a bracket that is opened
outside all brackets and owns everything up to the next such bracket, so captures and quantifiers
behind a pattern stay with it. Brackets in comments and in string literals do not count.
-/

namespace TypeCoupling.Query

inductive Mode where
  | code
  /-- After a semicolon, up to the end of the line. -/
  | comment
  | literal
  /-- After a backslash in a literal. -/
  | escape
  deriving DecidableEq, Repr

structure Scan where
  mode : Mode
  /-- Number of open brackets; a closing bracket without partner does not count. -/
  depth : Nat
  deriving DecidableEq, Repr

namespace Scan

def start : Scan := ⟨.code, 0⟩

def isOpening (c : Char) : Bool := c == '(' || c == '['

def isClosing (c : Char) : Bool := c == ')' || c == ']'

/-- Whether a pattern starts with the character. -/
def starts (s : Scan) (c : Char) : Bool := s.mode == .code && s.depth == 0 && isOpening c

def step (s : Scan) (c : Char) : Scan :=
  match s.mode with
  | .comment => if c == '\n' then { s with mode := .code } else s
  | .escape => { s with mode := .literal }
  | .literal =>
    if c == '\\' then { s with mode := .escape }
    else if c == '\x22' then { s with mode := .code }
    else s
  | .code =>
    if c == ';' then { s with mode := .comment }
    else if c == '\x22' then { s with mode := .literal }
    else if isOpening c then { s with depth := s.depth + 1 }
    else if isClosing c then { s with depth := s.depth - 1 }
    else s

end Scan

/-- The text before the first pattern, and the texts from each start of a pattern to the next. -/
def cutPatterns (s : Scan) : List Char → List (List Char)
  | [] => [[]]
  | c :: cs =>
    let rest := Text.consPiece c (cutPatterns (s.step c) cs)
    if s.starts c then [] :: rest else rest

def lines : List Char → List (List Char)
  | [] => []
  | c :: cs => if c == '\n' then [c] :: lines cs else Text.consPiece c (lines cs)

/-- A line that is blank or holds nothing but a comment. -/
def isIdleLine (line : List Char) : Bool :=
  match line.dropWhile Text.isBlank with
  | [] => true
  | c :: _ => c == ';'

/-- A pattern without the idle lines behind it, which belong to the next one, and without the
blank characters around it. -/
def dropIdleEnd (pattern : List Char) : String :=
  Text.trim (String.ofList ((lines pattern).reverse.dropWhile isIdleLine).reverse.flatten)

def splitPatterns (source : String) : List String :=
  (((cutPatterns .start source.toList).drop 1).map dropIdleEnd).filter (!·.isEmpty)

end TypeCoupling.Query
