import TypeCoupling.Text.Blank
import TypeCoupling.Text.Utf8

/-!
# Tokens and bracket trees

A source text is cut into tokens, and the tokens are grouped by their brackets. All later reading
goes over these trees, so a bracket is never looked for twice.
-/

namespace TypeCoupling.Source

inductive Kind where
  /-- An identifier, a keyword or a variable. -/
  | word
  | number
  /-- A string or character literal. -/
  | literal
  /-- An operator or a bracket. -/
  | sign
  deriving DecidableEq, Repr

structure Token where
  kind : Kind
  text : String
  start : Nat
  stop : Nat
  deriving DecidableEq, Repr

/-- Says what a non-empty text starts with and how many characters that takes; nothing for blanks
and comments. -/
abbrev Lexer := List Char → Option Kind × Nat

/-- The tokens of a text whose first character is the byte `offset`. Every step takes at least
one character, so a `fuel` of as many steps as characters is enough. -/
def tokensFrom (lexer : Lexer) : (fuel : Nat) → (offset : Nat) → List Char → List Token
  | 0, _, _ => []
  | _, _, [] => []
  | fuel + 1, offset, s =>
    let (kind, length) := lexer s
    let taken := s.take (max 1 length)
    let next := offset + Text.byteCount taken
    let rest := tokensFrom lexer fuel next (s.drop (max 1 length))
    match kind with
    | none => rest
    | some kind => ⟨kind, String.ofList taken, offset, next⟩ :: rest

def tokens (lexer : Lexer) (s : List Char) : List Token := tokensFrom lexer s.length 0 s

/-! ## Lexemes that languages share -/

/-- Characters an identifier may start with: letters, and all that is beyond ASCII and not
blank. -/
def isWordStart (c : Char) : Bool :=
  c.isAlpha || c == '_' || (0x80 ≤ c.toNat && !Text.isBlank c)

def isWordRest (c : Char) : Bool := isWordStart c || c.isDigit

def wordLength (s : List Char) : Nat := (s.takeWhile isWordRest).length

/-- Length of a number: digits and letters, with a point before a digit. -/
def numberLength : List Char → Nat
  | [] => 0
  | '.' :: c :: s => if c.isDigit then 1 + numberLength (c :: s) else 0
  | c :: s => if isWordRest c then 1 + numberLength s else 0

/-- Length of what is left of a literal, its closing quote included. A backslash takes the next
character with it. -/
def quotedLength (quote : Char) : List Char → Nat
  | [] => 0
  | '\\' :: _ :: s => 2 + quotedLength quote s
  | c :: s => if c == quote then 1 else 1 + quotedLength quote s

/-- Length of what is left of a literal in which the quote is written twice. -/
def doubledLength (quote : Char) : List Char → Nat
  | [] => 0
  | c :: d :: s =>
    if c == quote then if d == quote then 2 + doubledLength quote s else 1
    else 1 + doubledLength quote (d :: s)
  | [_] => 1

/-- Length of the text up to the first copy of `mark`, the copy included. -/
def lengthThrough (mark : List Char) : List Char → Nat
  | [] => 0
  | c :: s => if mark.isPrefixOf (c :: s) then mark.length else 1 + lengthThrough mark s

def lineLength (s : List Char) : Nat := (s.takeWhile (· != '\n')).length

/-- The first of the signs that the text starts with, one character if there is none. -/
def signLength (signs : List String) (s : List Char) : Nat :=
  ((signs.find? fun sign => sign.toList.isPrefixOf s).map (·.length)).getD 1

/-! ## Bracket trees -/

/-- A token, or what stands between two brackets. -/
inductive Tree where
  | leaf (t : Token)
  | group (opening : Token) (body : List Tree) (closing : Token)

namespace Tree

def start : Tree → Nat
  | leaf t => t.start
  | group o _ _ => o.start

def stop : Tree → Nat
  | leaf t => t.stop
  | group _ _ c => c.stop

def isSign (sign : String) : Tree → Bool
  | leaf t => t.kind == .sign && t.text == sign
  | group .. => false

def isWord (word : String) : Tree → Bool
  | leaf t => t.kind == .word && t.text == word
  | group .. => false

def body? (opening : String) : Tree → Option (List Tree)
  | group o body _ => if o.text == opening then some body else none
  | leaf _ => none

def isGroup (opening : String) (t : Tree) : Bool := (t.body? opening).isSome

end Tree

structure Frame where
  opening : Token
  inside : List Tree

/-- The trees read so far, the latest first, below the brackets that are open. -/
structure Grouping where
  done : List Tree
  frames : List Frame

namespace Grouping

def start : Grouping := ⟨[], []⟩

def put (g : Grouping) (t : Tree) : Grouping :=
  match g.frames with
  | [] => { g with done := t :: g.done }
  | f :: fs => { g with frames := { f with inside := t :: f.inside } :: fs }

/-- Closes the innermost open bracket; a closing bracket without partner is dropped. -/
def close (g : Grouping) (closing : Token) : Grouping :=
  match g.frames with
  | [] => g
  | f :: fs => put { g with frames := fs } (.group f.opening f.inside.reverse closing)

def step (g : Grouping) (t : Token) : Grouping :=
  if t.kind != .sign then g.put (.leaf t)
  else if ["(", "[", "\x7b", "#["].contains t.text then
    { g with frames := ⟨t, []⟩ :: g.frames }
  else if [")", "]", "\x7d"].contains t.text then g.close t
  else g.put (.leaf t)

/-- Closes all brackets that are still open at the token `last`. -/
def finish (last : Token) : (frames : List Frame) → Grouping → List Tree
  | [], g => g.done.reverse
  | _ :: fs, g => finish last fs (g.close last)

end Grouping

def forest (tokens : List Token) : List Tree :=
  let g := tokens.foldl Grouping.step .start
  match tokens.getLast? with
  | some last => Grouping.finish last g.frames g
  | none => []

def headIs (test : Tree → Bool) (ts : List Tree) : Bool := (ts.head?.map test).getD false

/-- The trees up to the first leaf with the given sign, that leaf, and the trees after it. -/
def splitAtSign (sign : String) (ts : List Tree) : List Tree × Option Tree × List Tree :=
  let before := ts.takeWhile (!·.isSign sign)
  match ts.drop before.length with
  | t :: rest => (before, some t, rest)
  | [] => (before, none, [])

end TypeCoupling.Source
