import Std.Data.HashMap
import TypeCoupling.Capture
import TypeCoupling.Text.Blank
import TypeCoupling.Text.Split

/-!
# Imports

The import table of one file. An import is found through its alias or, without one, through the
last part of its name; the latest import of a key is the one found.
-/

namespace TypeCoupling

structure Import where
  /-- The imported namespace or type, written out. -/
  target : String
  /-- Last part of the target. -/
  suffix : String
  /-- Empty when there is none. -/
  aliasName : String
  file : String
  deriving DecidableEq, Repr

namespace Import

def plain (target delimiter file : String) : Import :=
  ⟨target, Text.lastPiece delimiter target, "", file⟩

/-- What the import is found through. -/
def lookupKey (i : Import) : String :=
  if i.aliasName.isEmpty then i.suffix else i.aliasName

end Import

/-- The imports of a file, and the position of the import that each key finds. -/
structure ImportTable where
  references : Array Import
  keys : Std.HashMap String Nat

namespace ImportTable

def empty : ImportTable := ⟨#[], ∅⟩

instance : Inhabited ImportTable := ⟨empty⟩

def resolve? (t : ImportTable) (key : String) : Option Import :=
  t.keys[key]?.bind fun i => t.references[i]?

def push (t : ImportTable) (i : Import) : ImportTable :=
  { references := t.references.push i
    keys := t.keys.insert i.lookupKey t.references.size }

/-- Gives the latest import an alias, which replaces its former key. A blank alias leaves it
without a key. -/
def aliasLast (t : ImportTable) (aliasName : String) : ImportTable :=
  match t.references.back? with
  | none => t
  | some last =>
    let position := t.references.size - 1
    let keys :=
      if t.keys[last.lookupKey]? = some position then t.keys.erase last.lookupKey else t.keys
    if aliasName.isEmpty then { t with keys }
    else
      { references := t.references.pop.push { last with aliasName }
        keys := keys.insert aliasName position }

/-- Adds the import that one capture names. An alias written before its import is kept until the
next import. -/
def addSimple (delimiter file : String) :
    ImportTable × Option String → Capture → ImportTable × Option String
  | (t, pending), c =>
    match c.role with
    | .aliasBefore => (t, some (Text.lastWord c.text))
    | .aliasAfter => (t.aliasLast (Text.lastWord c.text), pending)
    | .importedName =>
      let t := t.push (.plain (Text.trim c.text) delimiter file)
      match pending with
      | some aliasName => (t.aliasLast aliasName, none)
      | none => (t, none)
    | _ => (t, pending)

def addSimples (t : ImportTable) (delimiter file : String) (captures : List Capture) :
    ImportTable :=
  (captures.foldl (addSimple delimiter file) (t, none)).1

/-- Adds the import that one capture of a group names: its item joined to the group's name.
An item without a group is skipped. -/
def addGrouped (delimiter file : String) :
    ImportTable × Option String → Capture → ImportTable × Option String
  | (t, group), c =>
    match c.role with
    | .groupName => (t, some (Text.dropEndCopies delimiter (Text.trim c.text)))
    | .groupItem =>
      match group with
      | some header =>
        let item := Text.dropStartCopies delimiter (Text.trim c.text)
        (t.push (.plain (header ++ delimiter ++ item) delimiter file), group)
      | none => (t, none)
    | .aliasAfter => (t.aliasLast (Text.lastWord c.text), group)
    | _ => (t, group)

def addGroups (t : ImportTable) (delimiter file : String) (captures : List Capture) :
    ImportTable :=
  (captures.foldl (addGrouped delimiter file) (t, none)).1

end ImportTable

end TypeCoupling
