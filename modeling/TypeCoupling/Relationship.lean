import Std.Data.TreeMap
import TypeCoupling.Entry
import TypeCoupling.UsageKind

/-!
# Relationships

Confirmed dependencies between declared types, and the tree that holds them by file.
-/

namespace TypeCoupling

structure Relationship where
  fromName : String
  fromFile : String
  fromType : String
  toName : String
  toFile : String
  toType : String
  kind : UsageKind
  deriving DecidableEq, Repr

/-- What tells the edges of one file apart. Edges of different files may share a key. -/
structure EdgeKey where
  fromName : String
  toName : String
  kind : UsageKind
  deriving DecidableEq, Repr, Hashable

namespace EdgeKey

def order (a b : EdgeKey) : Ordering :=
  (compare a.fromName b.fromName).then <| (compare a.toName b.toName).then <|
    compare a.kind b.kind

end EdgeKey

namespace Relationship

def between (source target : Entry) (kind : UsageKind) : Relationship :=
  ⟨source.qualifiedName, source.file, source.typeName,
    target.qualifiedName, target.file, target.typeName, kind⟩

def key (r : Relationship) : EdgeKey := ⟨r.fromName, r.toName, r.kind⟩

def isSelfEdge (r : Relationship) : Bool := r.fromName == r.toName

def isCrossFile (r : Relationship) : Bool := r.fromFile != r.toFile

def text (r : Relationship) : String :=
  r.fromName ++ " --" ++ r.kind.name ++ "--> " ++ r.toName

def order (a b : Relationship) : Ordering :=
  (compare a.fromName b.fromName).then <| (compare a.fromFile b.fromFile).then <|
    (compare a.fromType b.fromType).then <| (compare a.toName b.toName).then <|
    (compare a.toFile b.toFile).then <| (compare a.toType b.toType).then <|
    compare a.kind b.kind

end Relationship

/-- The list without elements equal to their predecessor. -/
def dropRepeats {α : Type} [DecidableEq α] : List α → List α
  | [] => []
  | [a] => [a]
  | a :: b :: l => if a = b then dropRepeats (b :: l) else a :: dropRepeats (b :: l)

/-- The elements in order and each once. -/
def sortDistinct {α : Type} [DecidableEq α] (order : α → α → Ordering) (l : List α) : List α :=
  dropRepeats (l.mergeSort fun a b => (order a b).isLE)

/-- The relationships that start in each file. -/
abbrev Tree := Std.TreeMap String (List Relationship)

namespace Tree

/-- The relationships of a file, none if the tree does not know it. -/
def edges (t : Tree) (file : String) : List Relationship := t.getD file []

/-- All relationships in order and each once. -/
def flatten (t : Tree) : List Relationship :=
  sortDistinct Relationship.order t.values.flatten

def extend (t : Tree) (file : String) (rs : List Relationship) : Tree :=
  t.insert file (t.edges file ++ rs)

end Tree

end TypeCoupling
