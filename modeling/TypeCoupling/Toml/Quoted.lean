/-!
# Quoted text in TOML

A text is written between quotes in one of four ways: with double quotes, where a backslash starts
an escape, or with single quotes, where it does not; and within one line, between single marks, or
over several lines, between triple marks. Writing takes the first way that needs no escapes.
-/

namespace TypeCoupling.Toml

def quote : Char := '\x22'

def apostrophe : Char := '\x27'

def isSpace (c : Char) : Bool := c == ' ' || c == '\t'

/-- A character that may stand for itself in a text, a comment or, except for line breaks, between
any quotes. -/
def isPrintable (c : Char) : Bool := c == '\t' || (32 ≤ c.toNat && c.toNat != 127)

def atBreak : List Char → Bool
  | '\n' :: _ => true
  | '\r' :: '\n' :: _ => true
  | _ => false

def dropBreak : List Char → List Char
  | '\n' :: s => s
  | '\r' :: '\n' :: s => s
  | s => s

/-! ### Escapes -/

def hexDigit? (c : Char) : Option Nat :=
  if c.isDigit then some (c.toNat - '0'.toNat)
  else if 'a' ≤ c && c ≤ 'f' then some (c.toNat - 'a'.toNat + 10)
  else if 'A' ≤ c && c ≤ 'F' then some (c.toNat - 'A'.toNat + 10)
  else none

def hexNumber? (digits : List Char) : Option Nat :=
  digits.foldlM (fun n c => (hexDigit? c).map (n * 16 + ·)) 0

/-- The character of a number that is one of a character. -/
def charOf? (n : Nat) : Option Char := if n.isValidChar then some (Char.ofNat n) else none

def hexEscape? (n : Nat) (s : List Char) : Option Char :=
  if s.length < n then none else (hexNumber? (s.take n)).bind charOf?

/-- The character that the escape after a backslash stands for, and how many characters it takes. -/
def escaped? : List Char → Option (Char × Nat)
  | [] => none
  | c :: s =>
    if c == 'b' then some ('\x08', 1)
    else if c == 't' then some ('\t', 1)
    else if c == 'n' then some ('\n', 1)
    else if c == 'f' then some ('\x0c', 1)
    else if c == 'r' then some ('\r', 1)
    else if c == quote then some (quote, 1)
    else if c == '\\' then some ('\\', 1)
    else if c == 'u' then (hexEscape? 4 s).map (·, 5)
    else if c == 'U' then (hexEscape? 8 s).map (·, 9)
    else none

/-! ### Reading -/

def consRead (c : Char) (r : Option (List Char × List Char)) : Option (List Char × List Char) :=
  r.map fun (text, rest) => (c :: text, rest)

/-- The text up to a double quote; the first `skip` characters belong to an escape. -/
def readBasic : List Char → (skip : Nat) → Option (List Char × List Char)
  | [], _ => none
  | _ :: s, n + 1 => readBasic s n
  | c :: s, 0 =>
    if c == quote then some ([], s)
    else if c == '\\' then (escaped? s).bind fun (x, n) => consRead x (readBasic s n)
    else if isPrintable c then consRead c (readBasic s 0)
    else none

def readLiteral : List Char → Option (List Char × List Char)
  | [] => none
  | c :: s =>
    if c == apostrophe then some ([], s)
    else if isPrintable c then consRead c (readLiteral s)
    else none

def breaksLine (s : List Char) : Bool := atBreak (s.dropWhile isSpace)

/-- The end of a text whose closing marks are at the front: up to two more marks belong to the
text. -/
def closeLines (mark : Char) (s : List Char) : List Char × List Char :=
  let extra := min 2 ((s.drop 3).takeWhile (· == mark)).length
  (List.replicate extra mark, s.drop (3 + extra))

/-- The text up to three marks. A backslash at the end of a line drops the blanks and line breaks
after it; `trimming` tells that these are being dropped. -/
def readLines (mark : Char) (escapes : Bool) :
    (trimming : Bool) → List Char → (skip : Nat) → Option (List Char × List Char)
  | _, [], _ => none
  | trimming, _ :: s, n + 1 => readLines mark escapes trimming s n
  | trimming, c :: s, 0 =>
    if trimming && (isSpace c || atBreak (c :: s)) then readLines mark escapes true s 0
    else if [mark, mark, mark].isPrefixOf (c :: s) then some (closeLines mark (c :: s))
    else if c == '\\' && escapes then
      if breaksLine s then readLines mark escapes true s 0
      else (escaped? s).bind fun (x, n) => consRead x (readLines mark escapes false s n)
    else if c == '\r' then
      if atBreak (c :: s) then readLines mark escapes false s 0 else none
    else if c == '\n' || isPrintable c then consRead c (readLines mark escapes false s 0)
    else none

def afterMarks? (mark : Char) : List Char → Option (List Char)
  | a :: b :: c :: s => if a == mark && b == mark && c == mark then some s else none
  | _ => none

def readLine? : List Char → Option (List Char × List Char)
  | [] => none
  | c :: s =>
    if c == quote then readBasic s 0
    else if c == apostrophe then readLiteral s
    else none

def readQuoted? (s : List Char) : Option (List Char × List Char) :=
  match afterMarks? quote s, afterMarks? apostrophe s with
  | some s, _ => readLines quote true false (dropBreak s) 0
  | none, some s => readLines apostrophe false false (dropBreak s) 0
  | none, none => readLine? s

/-! ### Writing -/

/-- A character other than a line break that cannot stand for itself. -/
def isControl (c : Char) : Bool := (c.toNat < 32 && c != '\n') || c.toNat == 127

def hasThree (mark : Char) : List Char → Bool
  | a :: b :: c :: s => (a == mark && b == mark && c == mark) || hasThree mark (b :: c :: s)
  | _ => false

def upperHexDigit (n : Nat) : Char :=
  if n < 10 then Char.ofNat ('0'.toNat + n) else Char.ofNat ('A'.toNat + (n - 10))

def escapeChar (c : Char) : List Char :=
  if c == '\x08' then ['\\', 'b']
  else if c == '\t' then ['\\', 't']
  else if c == '\n' then ['\\', 'n']
  else if c == '\x0c' then ['\\', 'f']
  else if c == '\r' then ['\\', 'r']
  else if c == quote then ['\\', quote]
  else if c == '\\' then ['\\', '\\']
  else if isControl c then
    ['\\', 'u', '0', '0', upperHexDigit (c.toNat / 16), upperHexDigit (c.toNat % 16)]
  else [c]

/-- A text over several lines with escapes: line breaks stay, and of the quotes in a row every
third is escaped; `quotes` were written since the last escape. -/
def escapeLines : (quotes : Nat) → List Char → List Char
  | _, [] => []
  | quotes, c :: s =>
    if c == quote then
      if quotes == 2 then escapeChar c ++ escapeLines 0 s else c :: escapeLines (quotes + 1) s
    else if c == '\n' then c :: escapeLines 0 s
    else escapeChar c ++ escapeLines 0 s

/-- A text between triple marks. A text with line breaks starts on a line of its own. -/
def betweenMarks (mark : Char) (text body : List Char) : List Char :=
  let marks := [mark, mark, mark]
  marks ++ (if text.contains '\n' then ['\n'] else []) ++ body ++ marks

def writeQuoted (text : List Char) : List Char :=
  let control := text.any isControl
  let multiline := text.contains '\n'
  let backslash := text.contains '\\'
  if !control && !backslash && !text.contains quote && !multiline then
    quote :: text ++ [quote]
  else if !control && !text.contains apostrophe && !multiline then
    apostrophe :: text ++ [apostrophe]
  else if !control && !backslash && !hasThree quote text then betweenMarks quote text text
  else if !control && !hasThree apostrophe text then betweenMarks apostrophe text text
  else if multiline then betweenMarks quote text (escapeLines 0 text)
  else quote :: text.flatMap escapeChar ++ [quote]

end TypeCoupling.Toml
