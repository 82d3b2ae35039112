import Std.Data.HashMap
import Std.Data.TreeMap
import TypeCoupling.Entry

/-!
# Index of declared types

The types of all files by qualified name and by file, and their public members by name. The first
declaration of a qualified name is kept; a later one changes nothing.
-/

namespace TypeCoupling

/-- Declared types by qualified name, and the qualified names that each file declares. -/
structure TypeIndex where
  byName : Std.HashMap String Entry
  byFile : Std.TreeMap String (List String)

namespace TypeIndex

def empty : TypeIndex := ⟨∅, ∅⟩

def contains (x : TypeIndex) (name : String) : Bool := x.byName.contains name

/-- Adds a type unless its qualified name is taken. -/
def insert (x : TypeIndex) (e : Entry) : TypeIndex :=
  if x.contains e.qualifiedName then x
  else
    { byName := x.byName.insert e.qualifiedName e
      byFile := x.byFile.insert e.file (x.byFile.getD e.file [] ++ [e.qualifiedName]) }

def get? (x : TypeIndex) (name : String) : Option Entry := x.byName[name]?

/-- The types of a file in the order they were added. -/
def entriesOf (x : TypeIndex) (file : String) : List Entry :=
  (x.byFile.getD file []).filterMap x.get?

/-- The files that declare a type, in order. -/
def files (x : TypeIndex) : List String := x.byFile.keys

def size (x : TypeIndex) : Nat := x.byName.size

def isEmpty (x : TypeIndex) : Bool := x.byName.isEmpty

end TypeIndex

/-- Public members by name; members of different types with one name are all kept. -/
structure AccessorIndex where
  byName : Std.HashMap String (List Accessor)

namespace AccessorIndex

def empty : AccessorIndex := ⟨∅⟩

def get (x : AccessorIndex) (name : String) : List Accessor := x.byName.getD name []

def insert (x : AccessorIndex) (a : Accessor) : AccessorIndex :=
  ⟨x.byName.insert a.name (x.get a.name ++ [a])⟩

/-- Number of different names. -/
def size (x : AccessorIndex) : Nat := x.byName.size

def isEmpty (x : AccessorIndex) : Bool := x.byName.isEmpty

end AccessorIndex

/-- The types of all files and their members. -/
structure Index where
  types : TypeIndex
  accessors : AccessorIndex

namespace Index

def empty : Index := ⟨.empty, .empty⟩

/-- Adds a type and its members unless its qualified name is taken. -/
def insert (x : Index) (e : Entry) : Index :=
  if x.types.contains e.qualifiedName then x
  else
    { types := x.types.insert e
      accessors := e.accessors.foldl AccessorIndex.insert x.accessors }

def ofEntries (entries : List Entry) : Index := entries.foldl insert empty

end Index

end TypeCoupling
