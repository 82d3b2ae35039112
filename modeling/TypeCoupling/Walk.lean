import Std.Data.HashSet
import TypeCoupling.CallChain
import TypeCoupling.Index
import TypeCoupling.Relationship

/-!
# Following call chains

A deferred chain is followed member by member. Each member is looked up by name; of the accessors
found those count whose declaring type is in reach, and the walk goes on at the types they
return. Every type met on the way is a relationship of the file's first type.
-/

namespace TypeCoupling

structure TypeRef where
  name : String
  file : String
  typeName : String
  deriving DecidableEq, Repr

namespace TypeRef

def ofEntry (e : Entry) : TypeRef := ⟨e.qualifiedName, e.file, e.typeName⟩

def target (r : Relationship) : TypeRef := ⟨r.toName, r.toFile, r.toType⟩

end TypeRef

structure Graph where
  index : Index
  tree : Tree

namespace Graph

/-- The type an accessor returns: one that its file uses under this name, else one of the
namespace of the declaring type, else one of exactly this name. -/
def returned? (g : Graph) (a : Accessor) (declaring : TypeRef) : Option TypeRef :=
  if a.returnType.isEmpty then none
  else
    let used := (g.tree.edges a.file).find? fun r =>
      r.toType == a.returnType || r.toName == a.returnType
    match used with
    | some r => some (.target r)
    | none =>
      let sibling := (g.index.types.get? declaring.name).bind fun e =>
        g.index.types.get? (qualify e.scope e.delimiter a.returnType)
      (sibling.or (g.index.types.get? a.returnType)).map .ofEntry

def supertypes (g : Graph) (t : TypeRef) : List TypeRef :=
  ((g.tree.edges t.file).filter fun r => r.fromName == t.name && r.kind.isInheritance).map
    .target

end Graph

structure Walk where
  /-- Pairs of a file and a member that the current chain has been at. -/
  visited : Std.HashSet (String × String)
  /-- Keys of the edges known so far. -/
  seen : Std.HashSet EdgeKey
  found : Array Relationship

namespace Walk

/-- Records the edge from the origin to a type, unless it is known or leads nowhere. -/
def emit (origin : Entry) (w : Walk) (t : TypeRef) : Walk :=
  if t.name == origin.qualifiedName then w
  else
    let r : Relationship :=
      ⟨origin.qualifiedName, origin.file, origin.typeName, t.name, t.file, t.typeName, .usage⟩
    if w.seen.contains r.key then w
    else { w with seen := w.seen.insert r.key, found := w.found.push r }

end Walk

namespace Graph

/-- The accessors of a name with those of their declaring types that are in reach. -/
def hops (g : Graph) (reach : List TypeRef) (member : String) : List (Accessor × TypeRef) :=
  (g.index.accessors.get member).flatMap fun a =>
    a.declaringTypes.filterMap fun name => (reach.find? (·.name == name)).map (a, ·)

/-- Follows the members from the types in reach. A pair of file and member is entered once. -/
def follow (g : Graph) (origin : Entry) :
    List String → (file : String) → (reach : List TypeRef) → Walk → Walk
  | [], _, _, w => w
  | member :: rest, file, reach, w =>
    if w.visited.contains (file, member) then w
    else
      let w := { w with visited := w.visited.insert (file, member) }
      (g.hops reach member).foldl (fun w hop =>
        let w := w.emit origin hop.2
        match g.returned? hop.1 hop.2 with
        | none => w
        | some t => g.follow origin rest t.file (t :: g.supertypes t) (w.emit origin t)) w

/-- What the first member of a chain of a file is looked up in: what the file uses, then its own
types. -/
def reachOf (g : Graph) (file : String) : List TypeRef :=
  (g.tree.edges file).map .target ++ (g.index.types.entriesOf file).map .ofEntry

def followChain (g : Graph) (origin : Entry) (file : String) (w : Walk) (c : CallChain) : Walk :=
  g.follow origin c.members file (g.reachOf file) { w with visited := ∅ }

/-- The transitive relationships of a file's chains that are not seen yet, and what is seen
then. A file without types has no origin for them. -/
def resolveFile (g : Graph) (file : String) (chains : List CallChain)
    (seen : Std.HashSet EdgeKey) : List Relationship × Std.HashSet EdgeKey :=
  match g.index.types.entriesOf file with
  | [] => ([], seen)
  | origin :: _ =>
    let w := chains.foldl (g.followChain origin file) ⟨∅, seen, #[]⟩
    (w.found.toList, w.seen)

def resolveAll (g : Graph) : List (String × List CallChain) → Std.HashSet EdgeKey →
    List Relationship × Std.HashSet EdgeKey
  | [], seen => ([], seen)
  | (file, chains) :: rest, seen =>
    let (found, seen) := g.resolveFile file chains seen
    let (more, seen) := g.resolveAll rest seen
    (found ++ more, seen)

end Graph

end TypeCoupling
