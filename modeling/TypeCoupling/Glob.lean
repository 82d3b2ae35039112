/-!
# Globs

A glob is a set of alternatives, each a sequence of steps that consume the bytes of a path from
left to right. One star and one question mark stay within a name; two stars that fill the space
between slashes cross directories. Braces hold alternatives, and a backslash takes away the meaning
of the next character.
-/

namespace TypeCoupling

namespace Glob

inductive Step where
  | byte (b : UInt8)
  /-- One byte that is no slash. -/
  | any
  /-- Any number of bytes that are no slashes. -/
  | star
  /-- One byte in one of the ranges, or in none of them. -/
  | oneOf (negated : Bool) (ranges : List (UInt8 × UInt8))
  /-- Any directories at the start of a path. -/
  | anyStart
  /-- A slash, or a slash, any directories and a slash. -/
  | anyBetween
  /-- A slash and anything after it. -/
  | anyEnd
  /-- Anything. -/
  | everything
  deriving DecidableEq, Repr

def slash : UInt8 := 47

def ends : List UInt8 → List (List UInt8)
  | [] => [[]]
  | b :: s => (b :: s) :: ends s

def endsInName : List UInt8 → List (List UInt8)
  | [] => [[]]
  | b :: s => (b :: s) :: (if b == slash then [] else endsInName s)

def afterSlashes : List UInt8 → List (List UInt8)
  | [] => []
  | b :: s => if b == slash then s :: afterSlashes s else afterSlashes s

namespace Step

def inRanges (ranges : List (UInt8 × UInt8)) (b : UInt8) : Bool :=
  ranges.any fun (lo, hi) => lo ≤ b && b ≤ hi

/-- What may be left of a path after the step. -/
def rests (step : Step) (s : List UInt8) : List (List UInt8) :=
  match step, s with
  | byte b, c :: s => if b == c then [s] else []
  | any, c :: s => if c == slash then [] else [s]
  | oneOf negated ranges, c :: s => if inRanges ranges c != negated then [s] else []
  | star, s => endsInName s
  | anyStart, s => s :: afterSlashes s
  | anyBetween, c :: s => if c == slash then s :: afterSlashes s else []
  | anyEnd, c :: s => if c == slash then ends s else []
  | everything, s => ends s
  | _, [] => []

end Step

/-- Whether the steps consume all of a path. -/
def fits : List Step → List UInt8 → Bool
  | [], s => s.isEmpty
  | step :: steps, s => (step.rests s).any (fits steps)

/-! ### Reading -/

inductive Token where
  | step (s : Step)
  | choice (alternatives : List (List Step))
  deriving DecidableEq, Repr

/-- All sequences of steps that the tokens stand for. -/
def expand : List Token → List (List Step)
  | [] => [[]]
  | .step s :: ts => (expand ts).map (s :: ·)
  | .choice as :: ts => as.flatMap fun a => (expand ts).map (a ++ ·)

/-- The alternatives of a pair of braces. An empty one does not count unless all are empty. -/
def choiceOf (branches : List (List Token)) : Token :=
  match (branches.map expand).filter (· != [[]]) with
  | [] => .choice [[]]
  | alternatives => .choice alternatives.flatten

abbrev Finished := List (List Token)

structure Reading where
  /-- The tokens of the alternative at hand, last one first. -/
  tokens : List Token
  /-- The finished alternatives of the innermost braces. -/
  finished : Finished
  /-- Per open pair of braces, what stands before it, and the finished alternatives around it. -/
  outer : List (List Token × Finished)
  /-- The last character read. -/
  previous : Option Char
  /-- Whether a bracket was met that is never closed; it and all after it mean themselves. -/
  plainBrackets : Bool

namespace Reading

def start : Reading := ⟨[], [], [], none, false⟩

def push (r : Reading) (s : Step) : Reading := { r with tokens := .step s :: r.tokens }

def pushChar (r : Reading) (c : Char) : Reading :=
  { r with tokens := (c.toString.toUTF8.data.toList.map (.step <| .byte ·)).reverse ++ r.tokens }

def inBraces (r : Reading) : Bool := !r.outer.isEmpty

def openBrace (r : Reading) : Reading :=
  { r with tokens := [], finished := [], outer := (r.tokens, r.finished) :: r.outer }

def nextAlternative (r : Reading) : Reading :=
  { r with tokens := [], finished := r.finished ++ [r.tokens.reverse] }

def closeBrace? (r : Reading) : Option Reading :=
  match r.outer with
  | [] => none
  | (tokens, finished) :: outer =>
    some { r with
      tokens := choiceOf (r.finished ++ [r.tokens.reverse]) :: tokens, finished, outer }

/-- Two stars that cross directories take the place of the slash before them. -/
def crossing (r : Reading) (s : Step) : Reading :=
  match r.tokens with
  | .step .anyStart :: _ => r
  | .step .anyEnd :: _ => r
  | tokens => { r with tokens := .step s :: tokens.tail }

/-- Two stars; also tells whether the character after them belongs to them. -/
def twoStars (r : Reading) (next : Option Char) : Reading × Bool :=
  let plain := ((r.push .star).push .star, false)
  if r.tokens.isEmpty then
    match next with
    | none => (r.push .anyStart, false)
    | some '/' => (r.push .anyStart, true)
    | some _ => plain
  else if r.previous != some '/' &&
      !(r.inBraces && (r.previous == some ',' || r.previous == some '\x7b')) then plain
  else
    match next with
    | none => (r.crossing .anyEnd, false)
    | some '/' => (r.crossing .anyBetween, true)
    | some c =>
      if r.inBraces && (c == ',' || c == '\x7d') then (r.crossing .anyEnd, false) else plain

end Reading

/-! ### Classes -/

inductive ClassRead where
  | closed (negated : Bool) (ranges : List (Char × Char)) (rest : List Char)
  | unclosed
  /-- A range whose end comes before its start. -/
  | reversed

/-- Reads the members of a class; `ranges` has the last one first, and `inRange` tells that the last
one is to be extended. -/
def readMembers (negated : Bool) : (first inRange : Bool) → (ranges : List (Char × Char)) →
    List Char → ClassRead
  | _, _, _, [] => .unclosed
  | first, inRange, ranges, c :: s =>
    if c == ']' && !first then
      .closed negated (if inRange then ('-', '-') :: ranges else ranges).reverse s
    else if c == '-' && !first && !inRange then readMembers negated false true ranges s
    else
      match inRange, ranges with
      | true, (lo, _) :: ranges =>
        if c < lo then .reversed else readMembers negated false false ((lo, c) :: ranges) s
      | _, _ => readMembers negated false false ((c, c) :: ranges) s

def readClass : List Char → ClassRead
  | '!' :: s => readMembers true true false [] s
  | '^' :: s => readMembers true true false [] s
  | s => readMembers false true false [] s

/-- The ranges of bytes of a range of characters: the last byte of the lower end and the first one
of the upper end span a range, the others stand for themselves. -/
def byteRanges (range : Char × Char) : List (UInt8 × UInt8) :=
  let lower := range.1.toString.toUTF8.data.toList
  let upper := range.2.toString.toUTF8.data.toList
  if range.1 == range.2 then lower.map fun b => (b, b)
  else
    lower.dropLast.map (fun b => (b, b)) ++ (lower.getLast?.toList.zip upper.head?.toList) ++
      upper.tail.map fun b => (b, b)

def readTokens : (fuel : Nat) → Reading → List Char → Option Reading
  | _, r, [] => some r
  | 0, _, _ => none
  | fuel + 1, r, c :: s =>
    let past (r : Reading) : Reading := { r with previous := some c }
    match c with
    | '?' => readTokens fuel (past (r.push .any)) s
    | '*' =>
      match s with
      | '*' :: s =>
        let (r, taken) := r.twoStars s.head?
        if taken then readTokens fuel { r with previous := some '/' } s.tail
        else readTokens fuel (past r) s
      | s => readTokens fuel (past (r.push .star)) s
    | '\x7b' => readTokens fuel (past r.openBrace) s
    | '\x7d' => r.closeBrace?.bind fun r => readTokens fuel (past r) s
    | ',' => readTokens fuel (past (if r.inBraces then r.nextAlternative else r.pushChar c)) s
    | '\\' =>
      match s with
      | [] => none
      | d :: s => readTokens fuel { r.pushChar d with previous := some d } s
    | '[' =>
      if r.plainBrackets then readTokens fuel (past (r.pushChar c)) s
      else match readClass s with
        | .reversed => none
        | .unclosed => readTokens fuel { past (r.pushChar c) with plainBrackets := true } s
        | .closed negated ranges rest =>
          readTokens fuel
            { r.push (.oneOf negated (ranges.flatMap byteRanges)) with previous := some ']' } rest
    | c => readTokens fuel (past (r.pushChar c)) s

end Glob

structure Glob where
  alternatives : List (List Glob.Step)
  deriving DecidableEq, Repr

namespace Glob

/-- Reads a glob; none if it is malformed. -/
def parse? (text : String) : Option Glob := do
  let s := text.toList
  let r ← readTokens s.length .start s
  if r.inBraces then none
  else if r.tokens == [.step .anyStart] then some ⟨[[.everything]]⟩
  else some ⟨expand r.tokens.reverse⟩

def contains (g : Glob) (path : String) : Bool :=
  g.alternatives.any (fits · path.toUTF8.data.toList)

end Glob

end TypeCoupling
