import TypeCoupling.Text.Blank
import TypeCoupling.Text.Split

/-!
# Call chains

A chain of member accesses whose receiver is not known to be a type. It is kept until all files
have been read and is then followed member by member.
-/

namespace TypeCoupling

structure CallChain where
  text : String
  delimiter : String
  /-- Whether the first part is a receiver and no member. -/
  hasReceiver : Bool
  deriving DecidableEq, Repr, Hashable

def CallChain.members (c : CallChain) : List String :=
  let parts := Text.split c.delimiter c.text
  let parts := if c.hasReceiver then parts.drop 1 else parts
  (parts.map fun s => String.ofList (Text.dropEndWhile (· == '?') s.toList)).filter (!·.isEmpty)

structure ArgumentScan where
  /-- Number of argument lists that are open. -/
  depth : Nat
  /-- The quote of the literal that is open. -/
  quote : Option Char
  /-- Whether a backslash in a literal precedes. -/
  escaped : Bool
  deriving DecidableEq, Repr

namespace ArgumentScan

def start : ArgumentScan := ⟨0, none, false⟩

/-- Steps over one character, and says whether it stays. Quotes count inside argument lists only;
blank characters go. -/
def step (s : ArgumentScan) (c : Char) : ArgumentScan × Bool :=
  match s.quote with
  | some q =>
    if s.escaped then ({ s with escaped := false }, false)
    else if c == '\\' then ({ s with escaped := true }, false)
    else if c == q then ({ s with quote := none }, false)
    else (s, false)
  | none =>
    if (c == '\x22' || c == '\x27') && 0 < s.depth then ({ s with quote := some c }, false)
    else if c == '(' then ({ s with depth := s.depth + 1 }, false)
    else if c == ')' then ({ s with depth := s.depth - 1 }, false)
    else (s, s.depth == 0 && !Text.isBlank c)

/-- The characters that stay. -/
def kept (s : ArgumentScan) : List Char → List Char
  | [] => []
  | c :: cs =>
    let (s', keep) := s.step c
    if keep then c :: kept s' cs else kept s' cs

def after (s : ArgumentScan) (cs : List Char) : ArgumentScan :=
  cs.foldl (fun s c => (s.step c).1) s

end ArgumentScan

/-- A call chain without its argument lists and blank characters. -/
def stripArguments (text : String) : String :=
  String.ofList (ArgumentScan.start.kept text.toList)

end TypeCoupling
