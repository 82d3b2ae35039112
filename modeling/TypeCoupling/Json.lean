import TypeCoupling.Number.Shortest

/-!
# JSON

Values of the report as JSON text, on one line or indented by two spaces a level.
-/

namespace TypeCoupling

inductive Json where
  | null
  | bool (b : Bool)
  | count (n : Nat)
  | real (x : Binary64)
  | text (s : String)
  | array (items : List Json)
  | object (fields : List (String × Json))

namespace Json

/-- Two hexadecimal digits. -/
def hexByte (n : Nat) : List Char :=
  let digit (k : Nat) := (Nat.toDigits 16 (k % 16)).headD '0'
  [digit (n / 16), digit n]

/-- The characters of a string literal that stand for a character. Control characters without a
short form are written by number. -/
def escape (c : Char) : List Char :=
  if c == '\x22' then ['\\', '\x22']
  else if c == '\\' then ['\\', '\\']
  else if c == '\n' then ['\\', 'n']
  else if c == '\r' then ['\\', 'r']
  else if c == '\t' then ['\\', 't']
  else if c.toNat == 8 then ['\\', 'b']
  else if c.toNat == 12 then ['\\', 'f']
  else if c.toNat < 32 then ['\\', 'u', '0', '0'] ++ hexByte c.toNat
  else [c]

def quote (s : String) : String :=
  String.ofList ('\x22' :: s.toList.flatMap escape ++ ['\x22'])

/-- How values are laid out. -/
inductive Layout where
  | compact
  /-- Every item on a line of its own, below so many levels. -/
  | indented (level : Nat)

namespace Layout

def inner : Layout → Layout
  | compact => compact
  | indented n => indented (n + 1)

/-- The start of a new line. -/
def line : Layout → String
  | compact => ""
  | indented n => "\n" ++ String.ofList (List.replicate (2 * n) ' ')

def colon : Layout → String
  | compact => ":"
  | indented _ => ": "

/-- Items between an opening and a closing bracket, each on its line. -/
def enclose (l : Layout) (opening closing : String) (items : List String) : String :=
  match items with
  | [] => opening ++ closing
  | items =>
    let separator := "," ++ l.inner.line
    opening ++ l.inner.line ++ String.intercalate separator items ++ l.line ++ closing

end Layout

mutual

def render (l : Layout) : Json → String
  | null => "null"
  | bool true => "true"
  | bool false => "false"
  | count n => toString n
  | real x => x.text
  | text s => quote s
  | array items => l.enclose "[" "]" (renderItems l.inner items)
  | object fields => l.enclose "\x7b" "\x7d" (renderFields l.inner fields)

def renderItems (l : Layout) : List Json → List String
  | [] => []
  | v :: vs => render l v :: renderItems l vs

def renderFields (l : Layout) : List (String × Json) → List String
  | [] => []
  | (k, v) :: fs => (quote k ++ l.colon ++ render l v) :: renderFields l fs

end

def compact (v : Json) : String := render .compact v

def pretty (v : Json) : String := render (.indented 0) v

end Json

end TypeCoupling
