import TypeCoupling.Query.Grammar
import TypeCoupling.Query.Patterns

/-!
# Building a query

The statements of a query that the grammar of a language accepts make up the query; the others
are dropped. A statement is accepted as a whole: its brackets must close and all its node kinds
and fields must exist.
-/

namespace TypeCoupling.Query

inductive Lexeme where
  | opening (bracket : Char)
  | closing (bracket : Char)
  | capture (name : String)
  /-- A field name in front of a pattern. -/
  | field (name : String)
  /-- A field that must be absent. -/
  | lacking (name : String)
  /-- A node kind or the wildcard. -/
  | kind (name : String)
  | predicate (name : String)
  | literal
  /-- Quantifiers and anchors. -/
  | sign
  deriving DecidableEq, Repr

def isNameChar (c : Char) : Bool := c.isAlphanum || c == '_' || c == '-'

def isCaptureChar (c : Char) : Bool := isNameChar c || c == '.' || c == '?' || c == '!'

def takeName (test : Char → Bool) (s : List Char) : String × List Char :=
  (String.ofList (s.takeWhile test), s.dropWhile test)

/-- What follows the closing quote of a literal; none if there is no such quote. -/
def afterLiteral? : List Char → Option (List Char)
  | [] => none
  | '\\' :: _ :: s => afterLiteral? s
  | c :: s => if c == '\x22' then some s else afterLiteral? s

/-- The tokens of a text; none if it holds anything that is no token. -/
def lexemes : (fuel : Nat) → List Char → Option (List Lexeme)
  | _, [] => some []
  | 0, _ => none
  | fuel + 1, c :: s =>
    if Text.isBlank c then lexemes fuel s
    else if c == ';' then lexemes fuel (s.dropWhile (· != '\n'))
    else if Scan.isOpening c then (lexemes fuel s).map (.opening c :: ·)
    else if Scan.isClosing c then (lexemes fuel s).map (.closing c :: ·)
    else if c == '\x22' then
      (afterLiteral? s).bind fun s => (lexemes fuel s).map (.literal :: ·)
    else if c == '@' then
      let (name, s) := takeName isCaptureChar s
      if name.isEmpty then none else (lexemes fuel s).map (.capture name :: ·)
    else if c == '#' then
      let (name, s) := takeName isCaptureChar s
      if name.isEmpty then none else (lexemes fuel s).map (.predicate name :: ·)
    else if c == '!' then
      let (name, s) := takeName isNameChar s
      if name.isEmpty then none else (lexemes fuel s).map (.lacking name :: ·)
    else if c == '.' || c == '+' || c == '*' || c == '?' then
      (lexemes fuel s).map (.sign :: ·)
    else
      let (name, s) := takeName isNameChar (c :: s)
      if name.isEmpty then none
      else match s with
        | ':' :: s => (lexemes fuel s).map (.field name :: ·)
        | s => (lexemes fuel s).map (.kind name :: ·)

/-- The captures of a part of a query in the order of the text, and the tokens after it. -/
abbrev Accepted := Option (List String × List Lexeme)

def readTail : List Lexeme → List String × List Lexeme
  | .sign :: ts => readTail ts
  | .capture name :: ts =>
    let (names, ts) := readTail ts
    (name :: names, ts)
  | ts => ([], ts)

def afterPredicate? : List Lexeme → Option (List Lexeme)
  | [] => none
  | .closing ')' :: ts => some ts
  | .opening _ :: _ => none
  | _ :: ts => afterPredicate? ts

mutual

def readPattern (g : Grammar) : (fuel : Nat) → List Lexeme → Accepted
  | 0, _ => none
  | fuel + 1, .opening '[' :: ts => readInside g fuel none ']' ts
  | fuel + 1, .opening _ :: .kind k :: ts =>
    if k == "_" then readInside g fuel none ')' ts
    else if g.kinds.contains k then readInside g fuel (some k) ')' ts
    else none
  | _, .opening _ :: .predicate _ :: ts => (afterPredicate? ts).map ([], ·)
  | fuel + 1, .opening _ :: ts => readInside g fuel none ')' ts
  | _, .literal :: ts => some (readTail ts)
  | _, .kind k :: ts => if k == "_" then some (readTail ts) else none
  | _, _ => none

/-- The patterns of a node or a choice up to the closing bracket, and what stands behind it. -/
def readInside (g : Grammar) : (fuel : Nat) → (kind : Option String) → (bracket : Char) →
    List Lexeme → Accepted
  | 0, _, _, _ => none
  | _, _, _, [] => none
  | fuel + 1, kind, bracket, t :: ts =>
    match t with
    | .closing b => if b == bracket then some (readTail ts) else none
    | .sign => readInside g fuel kind bracket ts
    | .lacking f => if g.hasField kind f then readInside g fuel kind bracket ts else none
    | .field f => if g.hasField kind f then readInside g fuel kind bracket ts else none
    | t =>
      (readPattern g fuel (t :: ts)).bind fun (names, ts) =>
        (readInside g fuel kind bracket ts).map fun (more, ts) => (names ++ more, ts)

end

def readPatterns (g : Grammar) : (fuel : Nat) → List Lexeme → Option (List (List String))
  | _, [] => some []
  | 0, _ => none
  | fuel + 1, ts =>
    (readPattern g (2 * ts.length) ts).bind fun (names, ts) =>
      (readPatterns g fuel ts).map (names :: ·)

/-- The captures of each pattern of a statement; none if the grammar refuses the statement. -/
def check? (g : Grammar) (statement : String) : Option (List (List String)) :=
  let s := statement.toList
  (lexemes s.length s).bind fun ts => readPatterns g ts.length ts

/-- A query: how many patterns it has, and the captures in the order they first appear. -/
structure Summary where
  patternCount : Nat
  captures : List String
  deriving DecidableEq, Repr

/-- The query of the accepted statements; none if all are refused. -/
def build? (g : Grammar) (statements : List String) : Option Summary :=
  match statements.filterMap (check? g) with
  | [] => none
  | accepted =>
    let patterns := accepted.flatten
    some ⟨patterns.length, patterns.flatten.eraseDups⟩

end TypeCoupling.Query
