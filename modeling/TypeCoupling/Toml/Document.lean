import TypeCoupling.Toml.Scalar

/-!
# Documents in TOML

A document says what is at each place of a tree of tables. Every place is defined once: a table that
came into being as part of a longer name may still be defined by its own header, and one that came
from a dotted key may only get more dotted keys.
-/

namespace TypeCoupling.Toml

inductive Step where
  | key (name : String)
  /-- A table of an array of tables. -/
  | item (index : Nat)
  deriving DecidableEq, Repr

abbrev Location := List Step

inductive Entry where
  | value (v : Value)
  /-- A table; whether it was never defined by itself, and whether it came from a dotted key. -/
  | table (implied dotted : Bool)
  /-- An array of tables and how many there are. -/
  | tables (count : Nat)
  deriving Repr

abbrev Document := List (Location × Entry)

namespace Document

def get? (d : Document) (l : Location) : Option Entry := d.lookup l

def put (d : Document) (l : Location) (e : Entry) : Document := (l, e) :: d

/-- Goes from a table to the one with the given name, which is made if it is missing. -/
def enter? (dotted : Bool) (state : Document × Location) (name : String) :
    Option (Document × Location) :=
  let (d, l) := state
  let l := l ++ [.key name]
  match d.get? l with
  | none => some (d.put l (.table true dotted), l)
  | some (.value _) => none
  | some (.tables n) => some (d, l ++ [.item (n - 1)])
  | some (.table implied _) => if dotted && !implied then none else some (d, l)

def descend? (d : Document) (l : Location) (names : List String) (dotted : Bool) :
    Option (Document × Location) :=
  names.foldlM (enter? dotted) (d, l)

def isDotted (d : Document) (l : Location) : Bool :=
  match d.get? l with
  | some (.table _ dotted) => dotted
  | _ => false

/-- Adds the value of a key to the table at a location. -/
def insert? (d : Document) (l : Location) (names : List String) (v : Value) : Option Document := do
  let name ← names.getLast?
  let (d, l) ← d.descend? l names.dropLast true
  -- Dotted keys end in tables of dotted keys only.
  guard (names.dropLast.isEmpty || d.isDotted l)
  let l := l ++ [.key name]
  match d.get? l with
  | none => some (d.put l (.value v))
  | some _ => none

def openTable? (d : Document) (names : List String) : Option (Document × Location) := do
  let name ← names.getLast?
  let (d, l) ← d.descend? [] names.dropLast false
  let l := l ++ [.key name]
  match d.get? l with
  | none => some (d.put l (.table false false), l)
  | some (.table true false) => some (d.put l (.table false false), l)
  | some _ => none

/-- Opens one more table of an array of tables. -/
def openItem? (d : Document) (names : List String) : Option (Document × Location) := do
  let name ← names.getLast?
  let (d, l) ← d.descend? [] names.dropLast false
  let l := l ++ [.key name]
  match d.get? l with
  | none => some (d.put l (.tables 1), l ++ [.item 0])
  | some (.tables n) => some (d.put l (.tables (n + 1)), l ++ [.item n])
  | some _ => none

def entry? (d : Document) (name : String) : Option Entry := d.get? [.key name]

end Document

end TypeCoupling.Toml
