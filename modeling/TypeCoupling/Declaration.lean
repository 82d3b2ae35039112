import TypeCoupling.Capture
import TypeCoupling.Entry
import TypeCoupling.Text.Blank
import TypeCoupling.Text.Split

/-!
# Declared types of a file

The declaration captures of a file become its declared types. A name belongs to the smallest
block around it; base names and accessors belong to the innermost type around them.
-/

namespace TypeCoupling

structure Named where
  block : Capture
  name : Capture
  deriving DecidableEq, Repr

namespace Named

/-- Every capture of the role `name` with the smallest block of the role `block` around its
start; a name outside all blocks is left out. -/
def pairs (block name : Role) (captures : List Capture) : List Named :=
  (ofRole name captures).filterMap fun n =>
    (((ofRole block captures).filter (·.encloses n.start)).minOn? Capture.width).map (⟨·, n⟩)

def innermost? (blocks : List Named) (byte : Nat) : Option Nat :=
  ((blocks.zipIdx.filter fun b => b.1.block.encloses byte).minOn? fun b => b.1.block.width).map
    (·.2)

end Named

structure Outline where
  captures : List Capture
  namespaces : List Named
  types : List Named
  accessors : List Named

namespace Outline

def ofCaptures (captures : List Capture) : Outline where
  captures
  namespaces := Named.pairs .namespaceBlock .namespaceName captures
  types := Named.pairs .typeBlock .typeName captures
  accessors := Named.pairs .accessorBlock .accessorName captures

/-- The namespace at a byte: the file's latest namespace before it, then the blocks around it
from the outermost to the innermost. -/
def scopeAt (o : Outline) (delimiter : String) (byte : Nat) : String :=
  let fileScope :=
    ((ofRole .fileNamespace o.captures).filter (·.start < byte)).getLast?.map (Text.trim ·.text)
  let blocks := (o.namespaces.filter (·.block.encloses byte)).mergeSort
    fun a b => a.block.start ≤ b.block.start
  Text.join delimiter (fileScope.toList ++ blocks.map (Text.trim ·.name.text))

end Outline

/-- Interfaces are named `I` and a capital letter, in the last part of a dotted name. -/
def looksLikeInterface (name : String) : Bool :=
  match (Text.lastPiece "." name).toList with
  | 'I' :: c :: _ => c.isUpper
  | _ => false

structure Bases where
  extended : Option String
  implemented : List String
  /-- Whether a member of an undivided base list has been met. -/
  listed : Bool
  deriving DecidableEq, Repr

namespace Bases

def none : Bases := ⟨.none, [], false⟩

/-- Adds a base. Of an undivided base list only the first member can be the base class, and it is
one unless it looks like an interface. -/
def add (b : Bases) (c : Capture) : Bases :=
  let name := Text.trim c.text
  match c.role with
  | .extendedType => { b with extended := some name }
  | .implementedType => { b with implemented := b.implemented ++ [name] }
  | .baseType =>
    if !b.listed && !looksLikeInterface name then { b with extended := some name, listed := true }
    else { b with implemented := b.implemented ++ [name], listed := true }
  | _ => b

end Bases

def undecorate (decorations : List String) (name : String) : String :=
  (decorations.findSome? (Text.dropEnd? · name)).getD name

/-- The type an accessor leads to: its return type without decorations, empty if it returns
nothing that can be named. -/
def cleanReturnType (decorations : List String) (text : String) : String :=
  let bare := undecorate decorations (Text.dropStartCopies "?" (Text.trim text))
  if ["void", "mixed", "never"].contains bare then "" else bare

namespace Outline

/-- The return type of the accessor at a position: the first one that has this accessor as its
innermost. -/
def returnTypeOf (o : Outline) (decorations : List String) (position : Nat) : String :=
  (((ofRole .returnType o.captures).find? fun c =>
    Named.innermost? o.accessors c.start == some position).map
      (cleanReturnType decorations ·.text)).getD ""

def basesOf (o : Outline) (position : Nat) : Bases :=
  (o.captures.filter fun c =>
    [.extendedType, .implementedType, .baseType].contains c.role
      && Named.innermost? o.types c.start == some position).foldl Bases.add .none

def membersOf (o : Outline) (decorations : List String) (position : Nat) :
    List (String × String) :=
  (o.accessors.zipIdx.filter fun a =>
    Named.innermost? o.types a.1.block.start == some position).map
      fun a => (Text.trim a.1.name.text, o.returnTypeOf decorations a.2)

end Outline

def Entry.addMember (e : Entry) (member : String × String) : Entry :=
  if e.accessors.any (·.name == member.1) then e else e.addAccessor member.1 member.2

def Outline.entry (o : Outline) (p : Profile) (file : String) (t : Named) (position : Nat) :
    Entry :=
  let scope := o.scopeAt p.delimiter t.block.start
  let bases := o.basesOf position
  let bare := Entry.plain scope (Text.trim t.name.text) p.delimiter file p.language
  (o.membersOf p.decorations position).foldl Entry.addMember
    { bare with extended := bases.extended, implemented := bases.implemented }

/-- The declared types of a file, in the order of their names. -/
def declaredTypes (p : Profile) (file : String) (captures : List Capture) : List Entry :=
  let o := Outline.ofCaptures captures
  o.types.zipIdx.map fun t => o.entry p file t.1 t.2

end TypeCoupling
