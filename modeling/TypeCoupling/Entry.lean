import TypeCoupling.Language

/-!
# Declared types

The nodes of the dependency graph: a type of one file with its unresolved base names and the
public members that can be hops of a call chain.
-/

namespace TypeCoupling

/-- The name of a type in a namespace. A type outside any namespace has its bare name. -/
def qualify (scope delimiter typeName : String) : String :=
  if scope.isEmpty then typeName else scope ++ delimiter ++ typeName

structure Accessor where
  name : String
  /-- Qualified names of the types that declare this member. -/
  declaringTypes : List String
  /-- As written, empty if unknown. -/
  returnType : String
  file : String
  deriving DecidableEq, Repr

structure Entry where
  qualifiedName : String
  /-- The namespace, empty for none. -/
  scope : String
  typeName : String
  delimiter : String
  /-- Base class as written. -/
  extended : Option String
  /-- Interfaces as written. -/
  implemented : List String
  accessors : List Accessor
  file : String
  language : Language
  deriving DecidableEq, Repr

namespace Entry

def plain (scope typeName delimiter file : String) (language : Language) : Entry :=
  { qualifiedName := qualify scope delimiter typeName
    scope, typeName, delimiter, extended := none, implemented := [], accessors := []
    file, language }

def addAccessor (e : Entry) (name returnType : String) : Entry :=
  { e with accessors := e.accessors ++ [⟨name, [e.qualifiedName], returnType, e.file⟩] }

end Entry

end TypeCoupling
