import TypeCoupling.Toml.Document

/-!
# Reading TOML

A document is a sequence of lines: a key with its value, the header of a table, or nothing but a
comment. Arrays may go over several lines and hold comments; inline tables may not.
-/

namespace TypeCoupling.Toml

/-- How deep values may be nested and how many parts a key may have. -/
def maxDepth : Nat := 79

def dropSpace (s : List Char) : List Char := s.dropWhile isSpace

/-- What follows the comment, if there is one, and the end of the line. -/
def afterLine? (s : List Char) : Option (List Char) :=
  let s :=
    match dropSpace s with
    | '#' :: s => s.dropWhile isPrintable
    | s => s
  if s.isEmpty || atBreak s then some (dropBreak s) else none

/-- Drops blanks, line breaks and comments; none if a comment holds what it must not. -/
def dropIdle? : (comment : Bool) → List Char → Option (List Char)
  | _, [] => some []
  | comment, c :: s =>
    if c == '\n' then dropIdle? false s
    else if c == '\r' then if atBreak (c :: s) then dropIdle? false s else none
    else if comment then if isPrintable c then dropIdle? true s else none
    else if isSpace c then dropIdle? false s
    else if c == '#' then dropIdle? true s
    else some (c :: s)

/-! ### Keys -/

def isKeyChar (c : Char) : Bool := c.isAlphanum || c == '-' || c == '_'

def readName? (s : List Char) : Option (String × List Char) :=
  let name := s.takeWhile isKeyChar
  if name.isEmpty then (readLine? s).map fun (text, s) => (String.ofList text, s)
  else some (String.ofList name, s.dropWhile isKeyChar)

def readKey? : (fuel : Nat) → List Char → Option (List String × List Char)
  | 0, _ => none
  | fuel + 1, s => do
    let (name, s) ← readName? (dropSpace s)
    match dropSpace s with
    | '.' :: s => (readKey? fuel s).map fun (names, s) => (name :: names, s)
    | s => some ([name], s)

/-! ### Values -/

def readItems? (item : List Char → Option (Value × List Char)) :
    (fuel : Nat) → List Char → Option (List Value × List Char)
  | 0, _ => none
  | fuel + 1, s => do
    match ← dropIdle? false s with
    | ']' :: s => some ([], s)
    | s =>
      let (v, s) ← item s
      match ← dropIdle? false s with
      | ',' :: s => (readItems? item fuel s).map fun (vs, s) => (v :: vs, s)
      | ']' :: s => some ([v], s)
      | _ => none

/-- The pairs of an inline table after its opening brace or a comma; gives what follows the closing
brace. -/
def readPairs? (item : List Char → Option (Value × List Char)) :
    (fuel : Nat) → Document → List Char → Option (List Char)
  | 0, _, _ => none
  | fuel + 1, d, s => do
    let (names, s) ← readKey? maxDepth s
    match s with
    | '=' :: s =>
      let (v, s) ← item (dropSpace s)
      let d ← d.insert? [] names v
      match dropSpace s with
      | ',' :: s => readPairs? item fuel d s
      | '\x7d' :: s => some s
      | _ => none
    | _ => none

def readInline? (item : List Char → Option (Value × List Char)) (s : List Char) :
    Option (Value × List Char) :=
  match dropSpace s with
  | '\x7d' :: s => some (.other, s)
  | s => (readPairs? item s.length [] s).map (.other, ·)

/-- A value that has at most `depth` values around each other. -/
def readValue? : (depth : Nat) → List Char → Option (Value × List Char)
  | _, [] => none
  | depth, c :: s =>
    if c == quote || c == apostrophe then
      (readQuoted? (c :: s)).map fun (text, s) => (.text (String.ofList text), s)
    else if c == '[' || c == '\x7b' then
      match depth with
      | 0 => none
      | depth + 1 =>
        if c == '[' then
          (readItems? (readValue? depth) (s.length + 1) s).map fun (vs, s) => (.array vs, s)
        else readInline? (readValue? depth) s
    else readWord? (c :: s)

/-! ### Lines -/

/-- A document that has been read up to some line, and the table that the next keys belong to. -/
structure Progress where
  document : Document
  table : Location

namespace Progress

def start : Progress := ⟨[], []⟩

def readPair? (p : Progress) (s : List Char) : Option (Progress × List Char) := do
  let (names, s) ← readKey? maxDepth s
  match s with
  | '=' :: s =>
    let (v, s) ← readValue? maxDepth (dropSpace s)
    let d ← p.document.insert? p.table names v
    some ({ p with document := d }, s)
  | _ => none

def readHeader? (p : Progress) (s : List Char) : Option (Progress × List Char) :=
  match s with
  | '[' :: s => do
    let (names, s) ← readKey? maxDepth s
    match s with
    | ']' :: ']' :: s => (p.document.openItem? names).map fun (d, l) => (⟨d, l⟩, s)
    | _ => none
  | s => do
    let (names, s) ← readKey? maxDepth s
    match s with
    | ']' :: s => (p.document.openTable? names).map fun (d, l) => (⟨d, l⟩, s)
    | _ => none

def readLine? (p : Progress) (s : List Char) : Option (Progress × List Char) := do
  let (p, s) ←
    match dropSpace s with
    | '[' :: s => p.readHeader? s
    | s => if s.isEmpty || atBreak s || s.head? == some '#' then some (p, s) else p.readPair? s
  (afterLine? s).map (p, ·)

def readLines? : (fuel : Nat) → Progress → List Char → Option Document
  | _, p, [] => some p.document
  | 0, _, _ => none
  | fuel + 1, p, s => (p.readLine? s).bind fun (p, s) => readLines? fuel p s

end Progress

/-- Reads a document. A byte order mark at its start does not count. -/
def parse? (text : String) : Option Document :=
  let s := text.toList
  let s := if s.head? == some '\ufeff' then s.tail else s
  Progress.readLines? s.length .start s

end TypeCoupling.Toml
